import Tempesta.Frang.Counting

/-!
The limits on new connections and requests. The first limit that is exceeded blocks: the
number of connections, then the burst, then the rate.
-/

namespace Tempesta.Frang

open List WindowLib

variable {conf : FrangGlobCfg} {hz ts : Nat} {ra ra' : FrangAcc} {e : FrangEvent} {v : Verdict}
  {es : List FrangEvent} {k : Kind} {i : Fin frangFreq} {rates : FrangRates}

section verdict
lemma setRates_self : (ra.setRates i rates).history i = rates :=
  Function.update_self _ _ _

lemma frangConnLimit_verdict (h : frangConnLimit conf ts ra = (ra', v)) :
    ra'.connCurr = (ra.connCurr + 1) % 2 ^ 32 ∧
    v = if exceeds conf.connMax ra'.connCurr then .block .connMax
      else if exceeds conf.connBurst (Kind.conn.counter (ra'.history (slotOf frangFreq ts))) then
        .block .connBurst
      else if exceeds conf.connRate
          (collect (fun t => decide (ts ≤ t + frangFreq)) Kind.conn.counter ra' % 2 ^ 32) then
        .block .connRate
      else .pass := by
  unfold frangConnLimit at h
  dsimp only at h
  split at h
  · rename_i hmax
    cases h
    exact ⟨rfl, (if_pos hmax).symm⟩
  · rename_i hmax
    split at h
    · rename_i hburst
      cases h
      refine ⟨rfl, ?_⟩
      rw [if_neg hmax, setRates_self, if_pos (by exact hburst)]
    · rename_i hburst
      split at h
      · rename_i hrate
        cases h
        refine ⟨rfl, ?_⟩
        rw [if_neg hmax, setRates_self, if_neg (by exact hburst), if_pos (by exact hrate)]
      · rename_i hrate
        cases h
        refine ⟨rfl, ?_⟩
        rw [if_neg hmax, setRates_self, if_neg (by exact hburst), if_neg (by exact hrate)]

lemma frangReqLimit_verdict (hconf : ¬ (conf.reqBurst = 0 ∧ conf.reqRate = 0))
    (h : frangReqLimit conf ts ra = (ra', v)) :
    v = if exceeds conf.reqBurst (Kind.req.counter (ra'.history (slotOf frangFreq ts))) then
        .block .reqBurst
      else if exceeds conf.reqRate
          (collect (frangTimeInFrame ts) Kind.req.counter ra' % 2 ^ 32) then
        .block .reqRate
      else .pass := by
  unfold frangReqLimit at h
  rw [if_neg hconf] at h
  dsimp only at h
  split at h
  · rename_i hburst
    cases h
    rw [setRates_self, if_pos (by exact hburst)]
  · rename_i hburst
    split at h
    · rename_i hrate
      cases h
      rw [setRates_self, if_neg (by exact hburst), if_pos (by exact hrate)]
    · rename_i hrate
      cases h
      rw [setRates_self, if_neg (by exact hburst), if_neg (by exact hrate)]

lemma runClears_of_not_kept (h : ∀ call, k.kept call = false) : RunClears conf hz k es := by
  intro pre e post ra _ _ _ hkept
  rw [h] at hkept
  cases hkept

variable (hordered : TimeOrdered (es ++ [e])) (hrun : frangRun conf hz es = some ra)
  (hstep : frangStep conf hz ra e = some (ra', v))
include hordered hrun hstep

lemma conn_verdict (hcall : e.call = .connLimit) :
    v = if exceeds conf.connMax ((ra.connCurr + 1) % 2 ^ 32) then .block .connMax
      else if exceeds conf.connBurst (current hz .conn (es ++ [e]) (e.ts hz) % 2 ^ 32) then
        .block .connBurst
      else if exceeds conf.connRate (recent hz .conn (es ++ [e]) (e.ts hz) % 2 ^ 32) then
        .block .connRate
      else .pass := by
  have hreq : Kind.conn = .req → ¬ (conf.reqBurst = 0 ∧ conf.reqRate = 0) := fun h => by cases h
  have hclears : RunClears conf hz .conn (es ++ [e]) := runClears_of_not_kept fun _ => rfl
  have hhit : Kind.conn.hit e.call = true := by
    rw [hcall]
    rfl
  have hcurrent := counter_eq_current hreq hclears hordered hrun hstep hhit
  have hrecent := collect_eq_recent (fun t => decide (e.ts hz ≤ t + frangFreq)) hreq hclears
    hordered hrun hstep hhit (fun ts hts => decide_eq_false (by omega))
      (fun ts hts => decide_eq_true (by omega))
  unfold frangStep at hstep
  rw [hcall] at hstep
  obtain ⟨hcurr, hv⟩ := frangConnLimit_verdict (Option.some.inj hstep)
  rw [hcurrent, hrecent, hcurr] at hv
  exact hv

lemma req_verdict (hcall : e.call = .reqLimit) :
    v = if exceeds conf.reqBurst (current hz .req (es ++ [e]) (e.ts hz) % 2 ^ 32) then
        .block .reqBurst
      else if exceeds conf.reqRate (recent hz .req (es ++ [e]) (e.ts hz) % 2 ^ 32) then
        .block .reqRate
      else .pass := by
  by_cases hconf : conf.reqBurst = 0 ∧ conf.reqRate = 0
  · unfold frangStep at hstep
    rw [hcall] at hstep
    have hpass := Option.some.inj hstep
    rw [frangReqLimit, if_pos hconf] at hpass
    cases hpass
    rw [hconf.1, hconf.2]
    rfl
  · have hreq : Kind.req = .req → ¬ (conf.reqBurst = 0 ∧ conf.reqRate = 0) := fun _ => hconf
    have hclears : RunClears conf hz .req (es ++ [e]) := runClears_of_not_kept fun _ => rfl
    have hhit : Kind.req.hit e.call = true := by
      rw [hcall]
      rfl
    have hcurrent := counter_eq_current hreq hclears hordered hrun hstep hhit
    have hrecent := collect_eq_recent (frangTimeInFrame (e.ts hz)) hreq hclears hordered hrun
      hstep hhit (fun ts hts => decide_eq_false (by omega)) (fun ts hts => decide_eq_true hts)
    unfold frangStep at hstep
    rw [hcall] at hstep
    have hv := frangReqLimit_verdict hconf (Option.some.inj hstep)
    rw [hcurrent, hrecent] at hv
    exact hv

end verdict

/-- A connection is blocked for the number of connections if and only if that exceeds the limit, a
connection or request by its burst if and only if it is not blocked so and the calls of the current
tick exceed the burst, and by its rate if and only if none of these blocks it and the calls of the
last `FRANG_FREQ` ticks exceed the rate. -/
theorem conn_req_limits (conf : FrangGlobCfg) (hz : Nat) (es : List FrangEvent) (e : FrangEvent)
    (ra ra' : FrangAcc) (v : Verdict) (hordered : TimeOrdered (es ++ [e]))
    (hrun : frangRun conf hz es = some ra) (hstep : frangStep conf hz ra e = some (ra', v)) :
    (e.call = .connLimit →
      let max := exceeds conf.connMax ((ra.connCurr + 1) % 2 ^ 32)
      let burst := exceeds conf.connBurst (current hz .conn (es ++ [e]) (e.ts hz) % 2 ^ 32)
      let rate := exceeds conf.connRate (recent hz .conn (es ++ [e]) (e.ts hz) % 2 ^ 32)
      (v = .block .connMax ↔ max) ∧ (v = .block .connBurst ↔ ¬ max ∧ burst) ∧
        (v = .block .connRate ↔ ¬ max ∧ ¬ burst ∧ rate)) ∧
    (e.call = .reqLimit →
      let burst := exceeds conf.reqBurst (current hz .req (es ++ [e]) (e.ts hz) % 2 ^ 32)
      let rate := exceeds conf.reqRate (recent hz .req (es ++ [e]) (e.ts hz) % 2 ^ 32)
      (v = .block .reqBurst ↔ burst) ∧ (v = .block .reqRate ↔ ¬ burst ∧ rate)) := by
  constructor
  · intro hcall max burst rate
    have hv : v = if max then .block .connMax else if burst then .block .connBurst
        else if rate then .block .connRate else .pass :=
      conn_verdict hordered hrun hstep hcall
    rw [hv]
    cases max <;> cases burst <;> cases rate <;> decide
  · intro hcall burst rate
    have hv : v = if burst then .block .reqBurst else if rate then .block .reqRate else .pass :=
      req_verdict hordered hrun hstep hcall
    rw [hv]
    cases burst <;> cases rate <;> decide

def ones : FrangGlobCfg := ⟨0, 1, 1, 1, 1, 1, 1, 1⟩

/-- The second request of a tick is blocked by the burst. -/
theorem conn_req_limits_second :
    TimeOrdered [⟨5, .reqLimit⟩, ⟨5, .reqLimit⟩] ∧
      (frangReqLimit ones 0 (frangReqLimit ones 0 newClient).1).2 = .block .reqBurst := by
  refine ⟨by decide, ?_⟩
  exact ((conn_req_limits ones 1000 [⟨5, .reqLimit⟩] ⟨5, .reqLimit⟩
    (frangReqLimit ones 0 newClient).1 (frangReqLimit ones 0 (frangReqLimit ones 0 newClient).1).1
    (frangReqLimit ones 0 (frangReqLimit ones 0 newClient).1).2
    (by decide) rfl rfl).2 rfl).1.mpr (by decide)

/-- Every connection and request of a run is blocked by its burst if and only if the calls of the
tick exceed the burst, and by its rate if and only if those of the last `FRANG_FREQ` ticks exceed
the rate. -/
def LimitsExact (conf : FrangGlobCfg) (hz : Nat) (es : List FrangEvent) : Prop :=
  ∀ pre e post ra ra' v, es = pre ++ e :: post → frangRun conf hz pre = some ra →
    frangStep conf hz ra e = some (ra', v) →
    (e.call = .connLimit →
      (v = .block .connBurst ↔ exceeds conf.connBurst (current hz .conn (pre ++ [e]) (e.ts hz))) ∧
      (v = .block .connRate ↔ exceeds conf.connRate (recent hz .conn (pre ++ [e]) (e.ts hz)))) ∧
    (e.call = .reqLimit →
      (v = .block .reqBurst ↔ exceeds conf.reqBurst (current hz .req (pre ++ [e]) (e.ts hz))) ∧
      (v = .block .reqRate ↔ exceeds conf.reqRate (recent hz .req (pre ++ [e]) (e.ts hz))))

lemma frangRun_conns (conf : FrangGlobCfg) (hz jiffies n : Nat) :
    ∃ ra, frangRun conf hz (List.replicate n ⟨jiffies, .connLimit⟩) = some ra := by
  induction n with
  | zero => exact ⟨newClient, rfl⟩
  | succ n ih =>
    obtain ⟨ra, hra⟩ := ih
    rw [replicate_succ', frangRun_append, hra]
    exact ⟨_, rfl⟩

/-- Two requests in a tick that exceed both limits are blocked by the burst only; and the counters
are zero again at the `2 ^ 32`-th connection. -/
theorem limits_not_exact :
    ¬ LimitsExact ones 1000 [⟨5, .reqLimit⟩, ⟨5, .reqLimit⟩] ∧
      ¬ LimitsExact ones 1000 (List.replicate (2 ^ 32) ⟨5, .connLimit⟩) := by
  constructor
  · intro h
    have hexact := ((h [⟨5, .reqLimit⟩] ⟨5, .reqLimit⟩ [] (frangReqLimit ones 0 newClient).1
      (frangReqLimit ones 0 (frangReqLimit ones 0 newClient).1).1
      (frangReqLimit ones 0 (frangReqLimit ones 0 newClient).1).2 rfl rfl rfl).2 rfl).2
    have hrate := hexact.mpr (by decide)
    exact absurd hrate (by decide)
  · intro h
    obtain ⟨ra, hra⟩ := frangRun_conns ones 1000 5 (2 ^ 32 - 1)
    have hsplit : replicate (2 ^ 32) (⟨5, .connLimit⟩ : FrangEvent) =
        replicate (2 ^ 32 - 1) ⟨5, .connLimit⟩ ++ [⟨5, .connLimit⟩] := by
      have hsucc : 2 ^ 32 - 1 + 1 = 2 ^ 32 := by decide
      rw [← replicate_succ', hsucc]
    have hstep : frangStep ones 1000 ra ⟨5, .connLimit⟩ = some (frangConnLimit ones 0 ra) := rfl
    have hexact := ((h (replicate (2 ^ 32 - 1) ⟨5, .connLimit⟩) ⟨5, .connLimit⟩ [] ra _ _ hsplit
      hra hstep).1 rfl).1
    have hordered : TimeOrdered (replicate (2 ^ 32) ⟨5, .connLimit⟩) :=
      List.pairwise_replicate.mpr (.inr (Nat.le_refl _))
    have hcount : current 1000 .conn (replicate (2 ^ 32) ⟨5, .connLimit⟩) 0 = 2 ^ 32 := by
      rw [current, countP_replicate]
      rfl
    have hrecent : recent 1000 .conn (replicate (2 ^ 32) ⟨5, .connLimit⟩) 0 = 2 ^ 32 := by
      rw [recent, countP_replicate]
      rfl
    rw [hsplit] at hordered hcount hrecent
    have hv := conn_verdict hordered hra hstep rfl
    have hts : FrangEvent.ts 1000 ⟨5, .connLimit⟩ = 0 := by decide
    rw [hts, hcount, hrecent] at hv
    rw [hts, hcount] at hexact
    have hblock := hexact.mpr (by decide)
    have hmax : exceeds ones.connMax ((ra.connCurr + 1) % 2 ^ 32) = false := rfl
    rw [hv, hmax] at hblock
    exact absurd hblock (by decide)

end Tempesta.Frang
