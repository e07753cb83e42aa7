import Mathlib

/-!
Events of the last `n` ticks, counted in a ring of `n` slots. A slot carries the tick of
its last mark; a mark of a later tick starts it anew. As long as time does not run
backwards, the slots whose ticks are not too old add up to the hits of the last `n` ticks.
-/

namespace WindowLib

open List

variable {n t last : Nat} {hit : Bool} {marks : List (Nat × Bool)} {m : Nat × Bool}
  {test : Nat → Bool} [NeZero n]

/-- The tick of a slot and the hits in it -/
structure Slot where
  ts : Nat
  cnt : Nat
  deriving DecidableEq, Repr

/-- The slot of the tick `t` -/
def slotOf (n : Nat) [NeZero n] (t : Nat) : Fin n := Fin.ofNat n t

/-- A mark at the tick `t`, which is a hit or not -/
def mark (ring : Fin n → Slot) (t : Nat) (hit : Bool) : Fin n → Slot :=
  let i := slotOf n t
  Function.update ring i ⟨t, (if (ring i).ts = t then (ring i).cnt else 0) + hit.toNat⟩

/-- The ring behind a list of marks -/
def record (marks : List (Nat × Bool)) : Fin n → Slot :=
  marks.foldl (fun ring m => mark ring m.1 m.2) fun _ => ⟨0, 0⟩

/-- The hits at the tick `t` -/
def inTick (marks : List (Nat × Bool)) (t : Nat) : Nat := marks.countP fun m => m.2 && m.1 == t

/-- The hits in the `n` ticks up to `now` -/
def inWindow (n : Nat) (marks : List (Nat × Bool)) (now : Nat) : Nat :=
  marks.countP fun m => m.2 && decide (now < m.1 + n)

section mark
variable {ring : Fin n → Slot} {i : Fin n}

lemma record_append : (record (marks ++ [m]) : Fin n → Slot) = mark (record marks) m.1 m.2 := by
  rw [record, foldl_append]
  rfl

lemma mark_self : mark ring t hit (slotOf n t) =
    ⟨t, (if (ring (slotOf n t)).ts = t then (ring (slotOf n t)).cnt else 0) + hit.toNat⟩ :=
  Function.update_self _ _ _

lemma mark_of_ne (h : i ≠ slotOf n t) : mark ring t hit i = ring i :=
  Function.update_of_ne h _ _

end mark

/-- Slots count the hits of their ticks, and no mark is newer than its slot. -/
structure Counts (marks : List (Nat × Bool)) (ring : Fin n → Slot) (last : Nat) : Prop where
  cnt : ∀ i, (ring i).cnt =
    marks.countP fun m => m.2 && m.1 == (ring i).ts && slotOf n m.1 == i
  ts : ∀ i, slotOf n (ring i).ts = i ∨ (ring i).ts = 0
  ts_le : ∀ i, (ring i).ts ≤ last
  newer : ∀ m ∈ marks, m.1 ≤ (ring (slotOf n m.1)).ts

section counts
variable {ring : Fin n → Slot}

lemma Counts.mark (h : Counts marks ring last) (ht : last ≤ t) :
    Counts (marks ++ [(t, hit)]) (mark ring t hit) t := by
  constructor
  · intro i
    rw [countP_append, countP_singleton]
    by_cases hi : i = slotOf n t
    · subst hi
      rw [mark_self]
      have hlast : (if (hit && t == t && slotOf n t == slotOf n t) = true then 1 else 0) =
          hit.toNat := by
        cases hit <;> simp
      dsimp only
      rw [hlast]
      congr 1
      split
      · rename_i hts
        rw [h.cnt, hts]
      · rename_i hts
        symm
        rw [countP_eq_zero]
        intro m hm hcount
        simp only [Bool.and_eq_true, beq_iff_eq] at hcount
        obtain ⟨⟨-, rfl⟩, hslot⟩ := hcount
        have hle := h.newer m hm
        have hle' := h.ts_le (slotOf n m.1)
        exact hts (by omega)
    · rw [mark_of_ne hi, h.cnt]
      have hne : (slotOf n t == i) = false := beq_false_of_ne (Ne.symm hi)
      simp only [hne, Bool.and_false, Bool.false_eq_true, if_false, Nat.add_zero]
  · intro i
    by_cases hi : i = slotOf n t
    · subst hi
      rw [mark_self]
      exact .inl rfl
    · rw [mark_of_ne hi]
      exact h.ts i
  · intro i
    by_cases hi : i = slotOf n t
    · subst hi
      rw [mark_self]
    · rw [mark_of_ne hi]
      exact (h.ts_le i).trans ht
  · intro m hm
    by_cases hi : slotOf n m.1 = slotOf n t
    · rw [hi, mark_self]
      rw [mem_append, mem_singleton] at hm
      obtain hm | rfl := hm
      · exact (h.newer m hm).trans ((h.ts_le _).trans ht)
      · exact Nat.le_refl _
    · rw [mark_of_ne hi]
      rw [mem_append, mem_singleton] at hm
      obtain hm | rfl := hm
      · exact h.newer m hm
      · exact absurd rfl hi

lemma counts_record (h : (marks ++ [(t, hit)]).Pairwise fun a b => a.1 ≤ b.1) :
    Counts (marks ++ [(t, hit)]) (record (marks ++ [(t, hit)]) : Fin n → Slot) t := by
  induction marks using List.reverseRecOn generalizing t hit with
  | nil =>
    have hnew : Counts [] (fun _ : Fin n => (⟨0, 0⟩ : Slot)) 0 :=
      ⟨fun i => rfl, fun i => .inr rfl, fun i => Nat.le_refl 0, nofun⟩
    exact hnew.mark (Nat.zero_le t)
  | append_singleton marks m ih =>
    rw [pairwise_append] at h
    rw [record_append]
    refine Counts.mark (ih h.1) ?_
    exact h.2.2 m (by simp) _ (mem_singleton_self _)

/-- The hits of all slots that pass a test -/
theorem sum_countP (test : Fin n → Bool) (ts : Fin n → Nat) (marks : List (Nat × Bool)) :
    (∑ i, if test i then marks.countP fun m => m.2 && m.1 == ts i && slotOf n m.1 == i else 0) =
      marks.countP fun m =>
        m.2 && m.1 == ts (slotOf n m.1) && test (slotOf n m.1) := by
  induction marks with
  | nil => simp
  | cons m marks ih =>
    have hsplit : ∀ i, (if test i = true then
          (m :: marks).countP fun m => m.2 && m.1 == ts i && slotOf n m.1 == i else 0) =
        (if test i = true then
          marks.countP fun m => m.2 && m.1 == ts i && slotOf n m.1 == i else 0) +
        if slotOf n m.1 = i then
          if m.2 && m.1 == ts (slotOf n m.1) && test (slotOf n m.1) then 1 else 0
        else 0 := by
      intro i
      rw [countP_cons]
      by_cases hi : slotOf n m.1 = i
      · subst hi
        cases test (slotOf n m.1) <;> simp
      · have hne : (slotOf n m.1 == i) = false := beq_false_of_ne hi
        rw [if_neg hi, hne, Bool.and_false]
        simp
    rw [Finset.sum_congr rfl fun i _ => hsplit i, Finset.sum_add_distrib, ih,
      Finset.sum_ite_eq Finset.univ (slotOf n m.1), if_pos (Finset.mem_univ _),
      countP_cons]

variable (test) in
/-- The slots whose ticks are not too old. The slot of the tick `now - n` is that of `now`, so
that it makes no difference whether it is left out. -/
theorem sum_frame (h : Counts marks ring t) (hnow : (ring (slotOf n t)).ts = t)
    (hold : ∀ ts, ts + n < t → test ts = false) (hnew : ∀ ts, t < ts + n → test ts = true) :
    (∑ i, if test (ring i).ts then (ring i).cnt else 0) = inWindow n marks t := by
  have hcnt : ∀ i, (if test (ring i).ts then (ring i).cnt else 0) =
      if test (ring i).ts then
        marks.countP fun m => m.2 && m.1 == (ring i).ts && slotOf n m.1 == i else 0 := by
    intro i
    rw [h.cnt]
  rw [Finset.sum_congr rfl fun i _ => hcnt i,
    sum_countP (fun i => test (ring i).ts) (fun i => (ring i).ts), inWindow]
  apply countP_congr
  intro m hm
  have hle := h.newer m hm
  have hlast := h.ts_le (slotOf n m.1)
  simp only [Bool.and_eq_true, beq_iff_eq, decide_eq_true_eq, and_assoc]
  refine and_congr_right fun _ => ?_
  constructor
  · rintro ⟨heq, htest⟩
    by_contra hlt
    rw [← heq] at htest
    by_cases hedge : m.1 + n = t
    · have hslot : slotOf n m.1 = slotOf n t := by
        rw [← hedge]
        apply Fin.ext
        simp [slotOf, Fin.ofNat]
      rw [hslot, hnow] at heq
      have hn := NeZero.ne n
      omega
    · rw [hold m.1 (by omega)] at htest
      cases htest
  · intro hlt
    have heq : m.1 = (ring (slotOf n m.1)).ts := by
      obtain hslot | hzero := h.ts (slotOf n m.1)
      · have hmod : (ring (slotOf n m.1)).ts % n = m.1 % n := congrArg Fin.val hslot
        have hdvd := Nat.sub_mod_eq_zero_of_mod_eq hmod
        rw [Nat.mod_eq_of_lt (by omega)] at hdvd
        omega
      · omega
    exact ⟨heq, hnew _ (by omega)⟩

lemma cnt_now (h : Counts marks ring t) (hnow : (ring (slotOf n t)).ts = t) :
    (ring (slotOf n t)).cnt = inTick marks t := by
  rw [h.cnt, hnow, inTick]
  apply countP_congr
  intro m _
  simp only [Bool.and_eq_true, beq_iff_eq]
  constructor
  · exact fun hm => hm.1
  · exact fun hm => ⟨hm, by rw [hm.2]⟩

end counts

end WindowLib
