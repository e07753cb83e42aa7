import Tempesta.Frang.Limits

/-!
The limits on TLS handshakes. The burst of new sessions is compared with the sessions of all
ticks of the history, and a request that takes over a slot leaves the TLS counters of the
slot's last tick in it.
-/

namespace Tempesta.Frang

open WindowLib

section spec
variable (conf : FrangGlobCfg) (hz : Nat)

/-- New sessions are blocked by their rate if and only if those of the last `FRANG_FREQ` ticks
exceed it, and by their burst if and only if those of the tick exceed it; incomplete handshakes
are blocked if and only if those of the last `FRANG_FREQ` ticks exceed their rate. -/
def TlsExact (es : List FrangEvent) (e : FrangEvent) (v : Verdict) : Prop :=
  (e.call = .tlsConnLimit .finishedNew →
    (v = .block .tlsNewConnRate ↔
      exceeds conf.tlsNewConnRate (recent hz .tlsNew (es ++ [e]) (e.ts hz))) ∧
    (v = .block .tlsNewConnBurst ↔
      exceeds conf.tlsNewConnBurst (current hz .tlsNew (es ++ [e]) (e.ts hz)))) ∧
  (e.call = .tlsConnLimit .incomplete →
    (v = .block .tlsIncompleteConnRate ↔
      exceeds conf.tlsIncompleteConnRate (recent hz .tlsIncomplete (es ++ [e]) (e.ts hz))))

/-- A request takes over no slot with TLS handshakes in it; the `unsigned int` counters have room
for the handshakes of a tick; and a new session neither exceeds the burst with the sessions of
earlier ticks only, nor exceeds both limits. -/
def TlsClear (es : List FrangEvent) (ra : FrangAcc) (e : FrangEvent) : Prop :=
  (e.call = .reqLimit → ¬ (conf.reqBurst = 0 ∧ conf.reqRate = 0) →
    let rates := ra.history (slotOf frangFreq (e.ts hz))
    rates.ts = e.ts hz ∨ rates.tlsSessNew = 0 ∧ rates.tlsSessIncomplete = 0) ∧
  (e.call = .tlsConnLimit .finishedNew → current hz .tlsNew (es ++ [e]) (e.ts hz) < 2 ^ 32) ∧
  (e.call = .tlsConnLimit .incomplete →
    current hz .tlsIncomplete (es ++ [e]) (e.ts hz) < 2 ^ 32) ∧
  (e.call = .tlsConnLimit .finishedNew →
    let rate := exceeds conf.tlsNewConnRate (recent hz .tlsNew (es ++ [e]) (e.ts hz))
    let burst := exceeds conf.tlsNewConnBurst (current hz .tlsNew (es ++ [e]) (e.ts hz))
    let early := exceeds conf.tlsNewConnBurst (recent hz .tlsNew (es ++ [e]) (e.ts hz))
    ¬ (early ∧ ¬ burst ∧ ¬ rate) ∧ ¬ (burst ∧ rate))

def RunTlsClear (es : List FrangEvent) : Prop :=
  ∀ pre e post ra, es = pre ++ e :: post → frangRun conf hz pre = some ra →
    TlsClear conf hz pre ra e

end spec

variable {ra ra' : FrangAcc} {e : FrangEvent} {v : Verdict} {es : List FrangEvent} {k : Kind}
  {ts a b : Nat}

section counts
variable {conf : FrangGlobCfg} {hz : Nat}

lemma RunTlsClear.left (h : RunTlsClear conf hz (es ++ [e])) : RunTlsClear conf hz es := by
  rintro pre d post ra rfl hrun
  exact h pre d (post ++ [e]) ra (by simp) hrun

def Kind.tls : Kind → Bool
  | .tlsNew | .tlsIncomplete => true
  | .conn | .req => false

lemma TlsClear.clears (h : TlsClear conf hz es ra e) (k : Kind) (hk : k.tls = true) :
    Clears conf hz k ra e := by
  intro hstamps hkept
  have hcall : e.call = .reqLimit := by
    cases k with
    | conn | req => cases hk
    | tlsNew | tlsIncomplete =>
      cases hcall : e.call with
      | reqLimit => rfl
      | connLimit | connClose | tlsConnLimit hs => rw [hcall] at hkept; cases hkept
  have hconf : ¬ (conf.reqBurst = 0 ∧ conf.reqRate = 0) := by
    intro hzero
    rw [hcall, stamps, decide_eq_true hzero] at hstamps
    cases hstamps
  obtain hts | ⟨hnew, hincomplete⟩ := h.1 hcall hconf
  · exact .inl hts
  · cases k with
    | conn | req => cases hk
    | tlsNew => exact .inr hnew
    | tlsIncomplete => exact .inr hincomplete

lemma RunTlsClear.runClears (h : RunTlsClear conf hz es) (hk : k.tls = true) :
    RunClears conf hz k es :=
  fun pre e post ra hes hrun => (h pre e post ra hes hrun).clears k hk

lemma TlsClear.current_lt (h : TlsClear conf hz es ra e) (hk : k.tls = true)
    (hhit : k.hit e.call = true) : current hz k (es ++ [e]) (e.ts hz) < 2 ^ 32 := by
  cases k with
  | conn | req => cases hk
  | tlsNew =>
    apply h.2.1
    cases hcall : e.call with
    | tlsConnLimit hs =>
      rw [hcall] at hhit
      cases hs with
      | finishedNew => rfl
      | finishedResumed | incomplete | unknown => cases hhit
    | connLimit | connClose | reqLimit => rw [hcall] at hhit; cases hhit
  | tlsIncomplete =>
    apply h.2.2.1
    cases hcall : e.call with
    | tlsConnLimit hs =>
      rw [hcall] at hhit
      cases hs with
      | incomplete => rfl
      | finishedNew | finishedResumed | unknown => cases hhit
    | connLimit | connClose | reqLimit => rw [hcall] at hhit; cases hhit

/-- The counts of the slots stay below `2 ^ 32`. -/
theorem cnt_lt (hk : k.tls = true) (hordered : TimeOrdered es) (h : RunTlsClear conf hz es)
    (hrun : ∃ ra, frangRun conf hz es = some ra) (i : Fin frangFreq) :
    (record (marks conf hz k es) i).cnt < 2 ^ 32 := by
  induction es using List.reverseRecOn generalizing i with
  | nil => exact Nat.two_pow_pos 32
  | append_singleton es e ih =>
    obtain ⟨ra, hrun⟩ := hrun
    rw [frangRun_append] at hrun
    obtain ⟨ra₀, hrun₀, -⟩ := Option.bind_eq_some_iff.mp hrun
    have hold := ih (List.pairwise_append.mp hordered).1 h.left ⟨ra₀, hrun₀⟩
    have hreq : k = .req → ¬ (conf.reqBurst = 0 ∧ conf.reqRate = 0) := by
      rintro rfl
      cases hk
    have hpairwise := marks_pairwise conf hz k hordered
    have hcurrent := @countP_marks conf hz k hreq (fun t => t == e.ts hz) (es ++ [e])
    rw [marks_append] at hpairwise hcurrent ⊢
    split
    · rename_i hstamps
      rw [if_pos hstamps] at hpairwise hcurrent
      by_cases hi : i = slotOf frangFreq (e.ts hz)
      · subst hi
        have hnow : ((record (marks conf hz k es ++ [(e.ts hz, k.hit e.call)]) :
            Fin frangFreq → Slot) (slotOf frangFreq (e.ts hz))).ts = e.ts hz := by
          rw [record_append, mark_self]
        by_cases hhit : k.hit e.call = true
        · rw [cnt_now (counts_record hpairwise) hnow]
          have hlt := (h es e [] ra₀ rfl hrun₀).current_lt hk hhit
          rw [current, ← hcurrent] at hlt
          exact hlt
        · rw [Bool.not_eq_true] at hhit
          rw [record_append, mark_self, hhit, Bool.toNat_false, Nat.add_zero]
          split
          · exact hold _
          · exact Nat.two_pow_pos 32
      · rw [record_append, mark_of_ne hi]
        exact hold i
    · rw [List.append_nil]
      exact hold i

/-- The sum over the history, as an `unsigned long` -/
theorem collect_eq_recent_tls (hk : k.tls = true) (hordered : TimeOrdered (es ++ [e]))
    (h : RunTlsClear conf hz (es ++ [e])) (hrun : frangRun conf hz es = some ra)
    (hstep : frangStep conf hz ra e = some (ra', v)) (hhit : k.hit e.call = true) :
    collect (fun t => decide (e.ts hz ≤ t + frangFreq)) k.counter ra' % 2 ^ 64 =
      recent hz k (es ++ [e]) (e.ts hz) := by
  have hreq : k = .req → ¬ (conf.reqBurst = 0 ∧ conf.reqRate = 0) := by
    rintro rfl
    cases hk
  obtain ⟨htracks, hcounts, hnow⟩ := ring_spec hreq (h.runClears hk) hordered hrun hstep hhit
  have hrun' : frangRun conf hz (es ++ [e]) = some ra' := by
    rw [frangRun_append, hrun, Option.bind_some, hstep]
    rfl
  have hlt := cnt_lt hk hordered h ⟨ra', hrun'⟩
  have hsum := sum_frame (fun t => decide (e.ts hz ≤ t + frangFreq)) hcounts hnow
    (fun ts hts => decide_eq_false (by omega)) (fun ts hts => decide_eq_true (by omega))
  have hrecent : inWindow frangFreq (marks conf hz k (es ++ [e])) (e.ts hz) =
      recent hz k (es ++ [e]) (e.ts hz) :=
    countP_marks hreq (fun t => decide (e.ts hz < t + frangFreq)) (es ++ [e])
  have hcollect : collect (fun t => decide (e.ts hz ≤ t + frangFreq)) k.counter ra' =
      recent hz k (es ++ [e]) (e.ts hz) := by
    rw [← hrecent, ← hsum, collect]
    apply Finset.sum_congr rfl
    intro i _
    rw [(htracks i).1, (htracks i).2, Nat.mod_eq_of_lt (hlt i)]
  have hbound : collect (fun t => decide (e.ts hz ≤ t + frangFreq)) k.counter ra' ≤
      8 * 2 ^ 32 := by
    rw [hcollect, ← hrecent, ← hsum]
    refine Finset.sum_le_card_nsmul Finset.univ _ (2 ^ 32) ?_
    intro i _
    split
    · exact Nat.le_of_lt (hlt i)
    · exact Nat.zero_le _
  rw [Nat.mod_eq_of_lt (by omega), hcollect]

lemma frangTlsConnLimit_new (h : frangTlsConnLimit conf ts .finishedNew ra = (ra', v)) :
    let sumNew := collect (fun t => decide (ts ≤ t + frangFreq)) Kind.tlsNew.counter ra' % 2 ^ 64
    v = if exceeds conf.tlsNewConnRate sumNew then .block .tlsNewConnRate
      else if exceeds conf.tlsNewConnBurst sumNew then .block .tlsNewConnBurst else .pass := by
  unfold frangTlsConnLimit at h
  dsimp only at h ⊢
  split at h
  · rename_i hrate
    cases h
    exact (if_pos hrate).symm
  · rename_i hrate
    split at h
    · rename_i hburst
      cases h
      exact ((if_neg hrate).trans (if_pos hburst)).symm
    · rename_i hburst
      cases h
      exact ((if_neg hrate).trans (if_neg hburst)).symm

lemma frangTlsConnLimit_incomplete (h : frangTlsConnLimit conf ts .incomplete ra = (ra', v)) :
    v = if exceeds conf.tlsIncompleteConnRate (collect (fun t => decide (ts ≤ t + frangFreq))
        Kind.tlsIncomplete.counter ra' % 2 ^ 64) then .block .tlsIncompleteConnRate else .pass := by
  unfold frangTlsConnLimit at h
  dsimp only at h
  split at h
  · rename_i hrate
    cases h
    exact (if_pos hrate).symm
  · rename_i hrate
    cases h
    exact (if_neg hrate).symm

end counts

lemma exceeds_mono (limit : Nat) (h : a ≤ b) (ha : exceeds limit a = true) :
    exceeds limit b = true := by
  simp only [exceeds, Bool.and_eq_true, decide_eq_true_eq] at ha ⊢
  exact ⟨ha.1, Nat.lt_of_lt_of_le ha.2 h⟩

lemma current_le_recent (hz : Nat) (k : Kind) (es : List FrangEvent) (now : Nat) :
    current hz k es now ≤ recent hz k es now := by
  apply List.countP_mono_left
  intro e _ h
  simp only [Bool.and_eq_true, beq_iff_eq, decide_eq_true_eq] at h ⊢
  rw [h.2]
  exact ⟨h.1, Nat.lt_add_of_pos_right (by decide)⟩

/-- In every run whose steps meet the condition, the limits on TLS handshakes are exact. -/
theorem tls_limits_exact (conf : FrangGlobCfg) (hz : Nat) (es : List FrangEvent)
    (hordered : TimeOrdered es) (hclear : RunTlsClear conf hz es) :
    ∀ pre e post ra ra' v, es = pre ++ e :: post → frangRun conf hz pre = some ra →
      frangStep conf hz ra e = some (ra', v) → TlsExact conf hz pre e v := by
  rintro pre e post ra ra' v rfl hrun hstep
  have hsplit : pre ++ e :: post = pre ++ [e] ++ post := List.append_cons pre e post
  rw [hsplit] at hordered
  have hordered' : TimeOrdered (pre ++ [e]) := (List.pairwise_append.mp hordered).1
  have hclear' : RunTlsClear conf hz (pre ++ [e]) := by
    intro pre' e' post' ra₀ heq
    exact hclear pre' e' (post' ++ post) ra₀ (by rw [hsplit, heq]; simp)
  have hstep' := hstep
  unfold frangStep at hstep'
  constructor
  · intro hcall
    have hhit : Kind.tlsNew.hit e.call = true := by
      rw [hcall]
      rfl
    have hsum := collect_eq_recent_tls rfl hordered' hclear' hrun hstep hhit
    have hok := (hclear pre e post ra rfl hrun).2.2.2 hcall
    rw [hcall] at hstep'
    have hv := frangTlsConnLimit_new (Option.some.inj hstep')
    rw [hsum] at hv
    rw [hv]
    have hle := exceeds_mono conf.tlsNewConnBurst
      (current_le_recent hz .tlsNew (pre ++ [e]) (e.ts hz))
    revert hok hle
    generalize exceeds conf.tlsNewConnRate (recent hz .tlsNew (pre ++ [e]) (e.ts hz)) = rate
    generalize exceeds conf.tlsNewConnBurst (recent hz .tlsNew (pre ++ [e]) (e.ts hz)) = early
    generalize exceeds conf.tlsNewConnBurst (current hz .tlsNew (pre ++ [e]) (e.ts hz)) = burst
    cases rate <;> cases early <;> cases burst <;> decide
  · intro hcall
    have hhit : Kind.tlsIncomplete.hit e.call = true := by
      rw [hcall]
      rfl
    have hsum := collect_eq_recent_tls rfl hordered' hclear' hrun hstep hhit
    rw [hcall] at hstep'
    have hv := frangTlsConnLimit_incomplete (Option.some.inj hstep')
    rw [hsum] at hv
    rw [hv]
    cases exceeds conf.tlsIncompleteConnRate (recent hz .tlsIncomplete (pre ++ [e]) (e.ts hz)) <;>
      decide

/-- A burst of one new session, and a rate of one incomplete handshake -/
def burstOne : FrangGlobCfg := ⟨0, 0, 0, 0, 5, 0, 1, 1⟩

/-- The second new session of a tick is blocked by the burst. -/
theorem tls_limits_exact_second :
    TimeOrdered [⟨5, .tlsConnLimit .finishedNew⟩, ⟨5, .tlsConnLimit .finishedNew⟩] ∧
      TlsExact burstOne 1000 [⟨5, .tlsConnLimit .finishedNew⟩] ⟨5, .tlsConnLimit .finishedNew⟩
        (.block .tlsNewConnBurst) := by
  refine ⟨by decide, ?_⟩
  refine tls_limits_exact burstOne 1000
    [⟨5, .tlsConnLimit .finishedNew⟩, ⟨5, .tlsConnLimit .finishedNew⟩] (by decide) ?_
    [⟨5, .tlsConnLimit .finishedNew⟩] ⟨5, .tlsConnLimit .finishedNew⟩ []
    (frangTlsConnLimit burstOne 0 .finishedNew newClient).1
    (frangTlsConnLimit burstOne 0 .finishedNew
      (frangTlsConnLimit burstOne 0 .finishedNew newClient).1).1 _ rfl rfl rfl
  rintro (_ | ⟨x, _ | ⟨y, pre⟩⟩) e post ra heq -
  · cases heq
    exact ⟨nofun, fun _ => by decide, nofun, fun _ => by decide⟩
  · cases heq
    exact ⟨nofun, fun _ => by decide, nofun, fun _ => by decide⟩
  · have hlen := congrArg List.length heq
    simp at hlen

/-- One new session in each of two ticks: the second one is blocked by the burst. And a session of
the tick 0 counts in the tick 16, where a request has taken over its slot. -/
theorem tls_limits_not_exact :
    (∃ ra ra' v,
      frangRun burstOne 1000 [⟨0, .tlsConnLimit .finishedNew⟩] = some ra ∧
      frangStep burstOne 1000 ra ⟨125, .tlsConnLimit .finishedNew⟩ = some (ra', v) ∧
      ¬ TlsExact burstOne 1000 [⟨0, .tlsConnLimit .finishedNew⟩]
        ⟨125, .tlsConnLimit .finishedNew⟩ v) ∧
    ∃ ra ra' v,
      frangRun burstOne 1000 [⟨0, .tlsConnLimit .incomplete⟩, ⟨2000, .reqLimit⟩] = some ra ∧
      frangStep burstOne 1000 ra ⟨2000, .tlsConnLimit .incomplete⟩ = some (ra', v) ∧
      ¬ TlsExact burstOne 1000 [⟨0, .tlsConnLimit .incomplete⟩, ⟨2000, .reqLimit⟩]
        ⟨2000, .tlsConnLimit .incomplete⟩ v := by
  constructor
  · refine ⟨_, _, _, rfl, rfl, ?_⟩
    intro h
    exact absurd ((h.1 rfl).2.mp (by decide)) (by decide)
  · refine ⟨_, _, _, rfl, rfl, ?_⟩
    intro h
    exact absurd ((h.2 rfl).mp (by decide)) (by decide)

end Tempesta.Frang
