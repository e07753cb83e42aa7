import Tempesta.Frang

/-!
The counters of the history as counts over the events of a client.
-/

namespace Tempesta.Frang

open List WindowLib

variable {call : FrangCall} {ra ra' : FrangAcc} {e a b : FrangEvent} {rates : FrangRates} {ts : Nat}
  {v : Verdict} {ring : Fin frangFreq → Slot} {es : List FrangEvent} {conf : FrangGlobCfg}
  {hz : Nat} {k : Kind} {test : Nat → Bool}

def stamps (conf : FrangGlobCfg) : FrangCall → Bool
  | .connClose => false
  | .reqLimit => !(decide (conf.reqBurst = 0 ∧ conf.reqRate = 0))
  | _ => true

/-- A request that takes over a slot does not clear the TLS counters. -/
def Kind.kept : Kind → FrangCall → Bool
  | .tlsNew, .reqLimit => true
  | .tlsIncomplete, .reqLimit => true
  | _, _ => false

/-- The slot of `ts` behind a call -/
structure Counted (call : FrangCall) (now : Nat) (old new : FrangRates) : Prop where
  ts : new.ts = now
  counter : ∀ k : Kind, k.counter new =
    let base := if old.ts = now ∨ k.kept call then k.counter old else 0
    if k.hit call then (base + 1) % 2 ^ 32 else base

lemma clearSlot_ts (ra : FrangAcc) (ts : Nat) : (clearSlot ra ts).ts = ts := by
  unfold clearSlot
  dsimp only
  split
  · assumption
  · rfl

lemma clearSlot_counter {k : Kind} :
    k.counter (clearSlot ra ts) =
      if (ra.history (slotOf frangFreq ts)).ts = ts then
        k.counter (ra.history (slotOf frangFreq ts))
      else 0 := by
  unfold clearSlot
  dsimp only
  split
  · rfl
  · cases k <;> rfl

lemma clearSlotReq_ts (ra : FrangAcc) (ts : Nat) : (clearSlotReq ra ts).ts = ts := by
  unfold clearSlotReq
  dsimp only
  split
  · assumption
  · rfl

lemma clearSlotReq_counter {k : Kind} :
    k.counter (clearSlotReq ra ts) =
      if (ra.history (slotOf frangFreq ts)).ts = ts ∨ k.kept .reqLimit then
        k.counter (ra.history (slotOf frangFreq ts))
      else 0 := by
  unfold clearSlotReq
  by_cases hts : (ra.history (slotOf frangFreq ts)).ts = ts
  · rw [if_pos hts, if_pos (.inl hts)]
  · simp only [hts, if_false, false_or]
    cases k <;> rfl

lemma counted_clearSlot (hkept : ∀ k : Kind, k.kept call = false) (hts : rates.ts = ts)
    (h : ∀ k : Kind, k.counter rates =
      if k.hit call then (k.counter (clearSlot ra ts) + 1) % 2 ^ 32
      else k.counter (clearSlot ra ts)) :
    Counted call ts (ra.history (slotOf frangFreq ts)) rates := by
  refine ⟨hts, ?_⟩
  intro k
  rw [h k, clearSlot_counter]
  simp only [hkept k, Bool.false_eq_true, or_false]

lemma frangConnLimit_history (conf : FrangGlobCfg) (ts : Nat) (ra : FrangAcc) :
    ∃ rates, (frangConnLimit conf ts ra).1.history =
        Function.update ra.history (slotOf frangFreq ts) rates ∧
      Counted .connLimit ts (ra.history (slotOf frangFreq ts)) rates := by
  refine ⟨{ clearSlot ra ts with connNew := ((clearSlot ra ts).connNew + 1) % 2 ^ 32 }, ?_, ?_⟩
  · unfold frangConnLimit
    dsimp only
    split
    · rfl
    · split
      · rfl
      · split <;> rfl
  · refine counted_clearSlot (fun k => by cases k <;> rfl) (clearSlot_ts ra ts) ?_
    intro k
    cases k <;> rfl

lemma frangReqLimit_history (conf : FrangGlobCfg) (ts : Nat) (ra : FrangAcc)
    (h : ¬ (conf.reqBurst = 0 ∧ conf.reqRate = 0)) :
    ∃ rates, (frangReqLimit conf ts ra).1.history =
        Function.update ra.history (slotOf frangFreq ts) rates ∧
      Counted .reqLimit ts (ra.history (slotOf frangFreq ts)) rates := by
  refine ⟨{ clearSlotReq ra ts with req := ((clearSlotReq ra ts).req + 1) % 2 ^ 32 }, ?_, ?_⟩
  · unfold frangReqLimit
    rw [if_neg h]
    dsimp only
    split
    · rfl
    · split <;> rfl
  · refine ⟨clearSlotReq_ts ra ts, ?_⟩
    intro k
    rw [← clearSlotReq_counter]
    cases k <;> rfl

lemma frangTlsConnLimit_history (conf : FrangGlobCfg) (ts : Nat) (hsState : HsState)
    (ra : FrangAcc) :
    ∃ rates, (frangTlsConnLimit conf ts hsState ra).1.history =
        Function.update ra.history (slotOf frangFreq ts) rates ∧
      Counted (.tlsConnLimit hsState) ts (ra.history (slotOf frangFreq ts)) rates := by
  have hcounted : ∀ rates : FrangRates, rates.ts = ts →
      (∀ k : Kind, k.counter rates =
        if k.hit (.tlsConnLimit hsState) then (k.counter (clearSlot ra ts) + 1) % 2 ^ 32
        else k.counter (clearSlot ra ts)) →
      Counted (.tlsConnLimit hsState) ts (ra.history (slotOf frangFreq ts)) rates :=
    fun rates => counted_clearSlot fun k => by cases k <;> rfl
  cases hsState with
  | finishedNew =>
    refine ⟨{ clearSlot ra ts with
      tlsSessNew := ((clearSlot ra ts).tlsSessNew + 1) % 2 ^ 32 }, ?_, ?_⟩
    · unfold frangTlsConnLimit
      dsimp only
      split
      · rfl
      · split <;> rfl
    · refine hcounted _ (clearSlot_ts ra ts) ?_
      intro k
      cases k <;> rfl
  | finishedResumed =>
    refine ⟨clearSlot ra ts, rfl, hcounted _ (clearSlot_ts ra ts) ?_⟩
    intro k
    cases k <;> rfl
  | incomplete =>
    refine ⟨{ clearSlot ra ts with
      tlsSessIncomplete := ((clearSlot ra ts).tlsSessIncomplete + 1) % 2 ^ 32 }, ?_, ?_⟩
    · unfold frangTlsConnLimit
      dsimp only
      split <;> rfl
    · refine hcounted _ (clearSlot_ts ra ts) ?_
      intro k
      cases k <;> rfl
  | unknown =>
    refine ⟨clearSlot ra ts, rfl, hcounted _ (clearSlot_ts ra ts) ?_⟩
    intro k
    cases k <;> rfl

lemma frangStep_history (h : frangStep conf hz ra e = some (ra', v)) :
    if stamps conf e.call then
      ∃ rates, ra'.history = Function.update ra.history (slotOf frangFreq (e.ts hz)) rates ∧
        Counted e.call (e.ts hz) (ra.history (slotOf frangFreq (e.ts hz))) rates
    else ra'.history = ra.history := by
  unfold frangStep at h
  cases hcall : e.call with
  | connLimit =>
    rw [hcall] at h
    have hra : (frangConnLimit conf (e.ts hz) ra).1 = ra' := congrArg Prod.fst (Option.some.inj h)
    rw [if_pos (show stamps conf .connLimit = true from rfl), ← hra]
    exact frangConnLimit_history conf (e.ts hz) ra
  | connClose =>
    rw [hcall] at h
    rw [if_neg (show ¬ stamps conf .connClose = true from Bool.false_ne_true)]
    obtain ⟨ra₁, hclose, heq⟩ := Option.map_eq_some_iff.mp h
    cases heq
    unfold frangConnClose at hclose
    split at hclose
    · cases hclose
    · cases hclose
      rfl
  | reqLimit =>
    rw [hcall] at h
    have hra : (frangReqLimit conf (e.ts hz) ra).1 = ra' := congrArg Prod.fst (Option.some.inj h)
    by_cases hconf : conf.reqBurst = 0 ∧ conf.reqRate = 0
    · rw [if_neg (by simp [stamps, hconf]), ← hra, frangReqLimit, if_pos hconf]
    · rw [if_pos (by rw [stamps, decide_eq_false hconf]; rfl), ← hra]
      exact frangReqLimit_history conf (e.ts hz) ra hconf
  | tlsConnLimit hsState =>
    rw [hcall] at h
    have hra : (frangTlsConnLimit conf (e.ts hz) hsState ra).1 = ra' :=
      congrArg Prod.fst (Option.some.inj h)
    rw [if_pos (show stamps conf (.tlsConnLimit hsState) = true from rfl), ← hra]
    exact frangTlsConnLimit_history conf (e.ts hz) hsState ra

/-- The events that take a slot, with those of the kind as hits -/
def marks (conf : FrangGlobCfg) (hz : Nat) (k : Kind) (es : List FrangEvent) : List (Nat × Bool) :=
  (es.filter fun e => stamps conf e.call).map fun e => (e.ts hz, k.hit e.call)

/-- The counters of a kind follow a ring: they are `unsigned int`. -/
def Tracks (k : Kind) (ring : Fin frangFreq → Slot) (ra : FrangAcc) : Prop :=
  ∀ i, (ra.history i).ts = (ring i).ts ∧ k.counter (ra.history i) = (ring i).cnt % 2 ^ 32

lemma tracks_newClient (k : Kind) : Tracks k (fun _ => ⟨0, 0⟩) newClient := by
  intro i
  exact ⟨rfl, by cases k <;> rfl⟩

/-- The call leaves nothing of the kind in a slot that it takes over. -/
def Clears (conf : FrangGlobCfg) (hz : Nat) (k : Kind) (ra : FrangAcc) (e : FrangEvent) : Prop :=
  stamps conf e.call = true → k.kept e.call = true →
    (ra.history (slotOf frangFreq (e.ts hz))).ts = e.ts hz ∨
    k.counter (ra.history (slotOf frangFreq (e.ts hz))) = 0

lemma Tracks.step (h : Tracks k ring ra) (hstep : frangStep conf hz ra e = some (ra', v))
    (hclears : Clears conf hz k ra e) :
    Tracks k (if stamps conf e.call then mark ring (e.ts hz) (k.hit e.call) else ring) ra' := by
  have hhistory := frangStep_history hstep
  split at hhistory
  · rename_i hstamps
    obtain ⟨rates, hra, hcounted⟩ := hhistory
    obtain ⟨hts, hcnt⟩ := h (slotOf frangFreq (e.ts hz))
    rw [if_pos hstamps]
    intro i
    rw [hra]
    by_cases hi : i = slotOf frangFreq (e.ts hz)
    · subst hi
      rw [Function.update_self, mark_self]
      refine ⟨hcounted.ts, ?_⟩
      rw [hcounted.counter k]
      have hbase : (if (ra.history (slotOf frangFreq (e.ts hz))).ts = e.ts hz ∨
            k.kept e.call = true then k.counter (ra.history (slotOf frangFreq (e.ts hz))) else 0) =
          (if (ring (slotOf frangFreq (e.ts hz))).ts = e.ts hz then
            (ring (slotOf frangFreq (e.ts hz))).cnt else 0) % 2 ^ 32 := by
        by_cases hsame : (ra.history (slotOf frangFreq (e.ts hz))).ts = e.ts hz
        · rw [if_pos (.inl hsame), if_pos (hts ▸ hsame), hcnt]
        · rw [if_neg (fun hring => hsame (hts.trans hring))]
          split
          · rename_i hor
            exact (hclears hstamps (hor.resolve_left hsame)).resolve_left hsame
          · rfl
      rw [hbase]
      cases k.hit e.call with
      | true => rw [if_pos rfl, Bool.toNat_true, Nat.mod_add_mod]
      | false => rw [if_neg Bool.false_ne_true, Bool.toNat_false, Nat.add_zero]
    · rw [Function.update_of_ne hi, mark_of_ne hi]
      exact h i
  · rename_i hstamps
    rw [if_neg hstamps]
    intro i
    rw [hhistory]
    exact h i

lemma marks_append {k : Kind} :
    marks conf hz k (es ++ [e]) =
      marks conf hz k es ++ if stamps conf e.call then [(e.ts hz, k.hit e.call)] else [] := by
  unfold marks
  rw [filter_append, map_append]
  split
  · rename_i hstamps
    simp only [filter_cons, hstamps, if_true, filter_nil, map_cons, map_nil]
  · rename_i hstamps
    simp only [filter_cons, hstamps, Bool.false_eq_true, if_false, filter_nil, map_nil]

lemma frangRun_append :
    frangRun conf hz (es ++ [e]) =
      (frangRun conf hz es).bind fun ra => (frangStep conf hz ra e).map Prod.fst := by
  rw [frangRun, foldlM_append]
  simp only [foldlM_cons, foldlM_nil, bind_pure]
  rfl

/-- Every step of the run clears the counters of the kind. -/
def RunClears (conf : FrangGlobCfg) (hz : Nat) (k : Kind) (es : List FrangEvent) : Prop :=
  ∀ pre e post ra, es = pre ++ e :: post → frangRun conf hz pre = some ra → Clears conf hz k ra e

lemma RunClears.left (h : RunClears conf hz k (es ++ [e])) : RunClears conf hz k es := by
  rintro pre d post ra rfl hrun
  exact h pre d (post ++ [e]) ra (by simp) hrun

lemma tracks_run (hclears : RunClears conf hz k es) (hrun : frangRun conf hz es = some ra) :
    Tracks k (record (marks conf hz k es)) ra := by
  induction es using List.reverseRecOn generalizing ra with
  | nil =>
    cases hrun
    exact tracks_newClient k
  | append_singleton es e ih =>
    rw [frangRun_append] at hrun
    obtain ⟨ra₀, hrun₀, hmap⟩ := Option.bind_eq_some_iff.mp hrun
    obtain ⟨⟨ra₁, v⟩, hstep, rfl⟩ := Option.map_eq_some_iff.mp hmap
    have hnext := (ih hclears.left hrun₀).step hstep (hclears es e [] ra₀ rfl hrun₀)
    rw [marks_append]
    split at hnext
    · rename_i hstamps
      rw [if_pos hstamps, record_append]
      exact hnext
    · rename_i hstamps
      rw [if_neg hstamps, append_nil]
      exact hnext

lemma ts_le (h : a.jiffies ≤ b.jiffies) : a.ts hz ≤ b.ts hz :=
  Nat.div_le_div_right (Nat.mul_le_mul_right _ h)

variable (conf hz k) in
lemma marks_pairwise (h : TimeOrdered es) :
    (marks conf hz k es).Pairwise fun a b => a.1 ≤ b.1 := by
  unfold marks
  rw [pairwise_map]
  exact (h.imp fun hab => ts_le hab).filter _

lemma stamps_of_hit (hreq : k = .req → ¬ (conf.reqBurst = 0 ∧ conf.reqRate = 0))
    (h : k.hit call = true) : stamps conf call = true := by
  cases call with
  | reqLimit =>
    cases k with
    | req => rw [stamps, decide_eq_false (hreq rfl)]; rfl
    | conn | tlsNew | tlsIncomplete => cases h
  | connClose => cases k <;> cases h
  | connLimit | tlsConnLimit hsState => rfl

lemma countP_marks (hreq : k = .req → ¬ (conf.reqBurst = 0 ∧ conf.reqRate = 0)) (p : Nat → Bool)
    (es : List FrangEvent) :
    (marks conf hz k es).countP (fun m => m.2 && p m.1) =
      es.countP fun e => k.hit e.call && p (e.ts hz) := by
  unfold marks
  rw [countP_map, countP_filter]
  apply countP_congr
  intro e _
  simp only [Function.comp_apply, Bool.and_eq_true]
  exact ⟨fun h => h.1, fun h => ⟨h, stamps_of_hit hreq h.1⟩⟩

section counts
variable (hreq : k = .req → ¬ (conf.reqBurst = 0 ∧ conf.reqRate = 0))
  (hclears : RunClears conf hz k (es ++ [e])) (hordered : TimeOrdered (es ++ [e]))
  (hrun : frangRun conf hz es = some ra) (hstep : frangStep conf hz ra e = some (ra', v))
  (hhit : k.hit e.call = true)
include hreq hclears hordered hrun hstep hhit

lemma ring_spec : Tracks k (record (marks conf hz k (es ++ [e]))) ra' ∧
    Counts (marks conf hz k (es ++ [e]))
      (record (marks conf hz k (es ++ [e])) : Fin frangFreq → Slot) (e.ts hz) ∧
    ((record (marks conf hz k (es ++ [e])) : Fin frangFreq → Slot)
      (slotOf frangFreq (e.ts hz))).ts = e.ts hz := by
  have hstamps := stamps_of_hit hreq hhit
  have hrun' : frangRun conf hz (es ++ [e]) = some ra' := by
    rw [frangRun_append, hrun, Option.bind_some, hstep]
    rfl
  refine ⟨tracks_run hclears hrun', ?_, ?_⟩
  · have hpairwise := marks_pairwise conf hz k hordered
    rw [marks_append, if_pos hstamps] at hpairwise ⊢
    exact counts_record hpairwise
  · rw [marks_append, if_pos hstamps, record_append, mark_self]

lemma counter_eq_current :
    k.counter (ra'.history (slotOf frangFreq (e.ts hz))) =
      current hz k (es ++ [e]) (e.ts hz) % 2 ^ 32 := by
  obtain ⟨htracks, hcounts, hnow⟩ := ring_spec hreq hclears hordered hrun hstep hhit
  rw [(htracks _).2, cnt_now hcounts hnow]
  congr 1
  exact countP_marks hreq (fun t => t == e.ts hz) (es ++ [e])

variable (test) in
/-- The sum over the history, as an `unsigned int` -/
theorem collect_eq_recent (hold : ∀ ts, ts + frangFreq < e.ts hz → test ts = false)
    (hnew : ∀ ts, e.ts hz < ts + frangFreq → test ts = true) :
    collect test k.counter ra' % 2 ^ 32 = recent hz k (es ++ [e]) (e.ts hz) % 2 ^ 32 := by
  obtain ⟨htracks, hcounts, hnow⟩ := ring_spec hreq hclears hordered hrun hstep hhit
  have hsum := sum_frame test hcounts hnow hold hnew
  have hrecent : inWindow frangFreq (marks conf hz k (es ++ [e])) (e.ts hz) =
      recent hz k (es ++ [e]) (e.ts hz) :=
    countP_marks hreq (fun t => decide (e.ts hz < t + frangFreq)) (es ++ [e])
  rw [← hrecent, ← hsum, collect, Finset.sum_nat_mod, Finset.sum_nat_mod Finset.univ (2 ^ 32)
    fun i => if test (record (marks conf hz k (es ++ [e])) i).ts then
      (record (marks conf hz k (es ++ [e])) i).cnt else 0]
  congr 1
  apply Finset.sum_congr rfl
  intro i _
  rw [(htracks i).1, (htracks i).2]
  split
  · exact Nat.mod_mod _ _
  · rfl

end counts

end Tempesta.Frang
