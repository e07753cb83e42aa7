import Mathlib

/-!
The longest accepted front part of a list, found block by block: all symbols of a
block are tested at once, and the place of a symbol in its block may take part in
the test.
-/

namespace SpanLib

universe u
variable {α : Type u}

/-- The number of symbols in front of the first one that is not accepted. -/
def span (p : α → Bool) (l : List α) : Nat :=
  (l.takeWhile p).length

/-- A block of `w` symbols where there is one; `next` goes on behind it. -/
def block (w : Nat) (ok : Nat → α → Bool) (next : List α → Nat) (l : List α) : Nat :=
  if w ≤ l.length then
    let i := (l.take w).zipIdx.findIdx fun x => !ok x.2 x.1
    if i < w then i else w + next (l.drop w)
  else next l

/-- At most `n` blocks -/
def blocks (w : Nat) (ok : Nat → α → Bool) (next : List α → Nat) : Nat → List α → Nat
  | 0 => next
  | n + 1 => block w ok (blocks w ok next n)

section span
variable {p : α → Bool} {c : α} {l l' : List α}

@[simp]
lemma span_nil : span p [] = 0 := rfl

@[simp]
lemma span_cons : span p (c :: l) = if p c then span p l + 1 else 0 := by
  unfold span
  by_cases h : p c
  · rw [List.takeWhile_cons_of_pos h, if_pos h, List.length_cons]
  · rw [List.takeWhile_cons_of_neg h, if_neg h, List.length_nil]

lemma span_append :
    span p (l ++ l') = if span p l < l.length then span p l else l.length + span p l' := by
  induction l with
  | nil => simp
  | cons c l ih =>
    by_cases h : p c
    · simp only [List.cons_append, span_cons, if_pos h, ih, List.length_cons,
        Nat.add_lt_add_iff_right]
      split <;> omega
    · simp [h]

/-- The first place whose test fails -/
theorem findIdx_zipIdx_eq_span {ok : Nat → α → Bool} {k : Nat}
    (hok : ∀ i, k ≤ i → i < k + l.length → ∀ c, ok i c = p c) :
    ((l.zipIdx k).findIdx fun x => !ok x.2 x.1) = span p l := by
  induction l generalizing k with
  | nil => rfl
  | cons c l ih =>
    have hlen : (c :: l).length = l.length + 1 := List.length_cons
    rw [List.zipIdx_cons, List.findIdx_cons, hok k (Nat.le_refl k) (by omega), span_cons,
      ih fun i hi hlt => hok i (by omega) (by omega)]
    cases p c <;> rfl

end span

section block
variable {p : α → Bool} {w : Nat} {ok : Nat → α → Bool} {next : List α → Nat}

lemma block_eq_span (hok : ∀ i < w, ∀ c, ok i c = p c) (hnext : ∀ l, next l = span p l)
    (l : List α) : block w ok next l = span p l := by
  unfold block
  split
  · rename_i hw
    have hlen : (l.take w).length = w := List.length_take_of_le hw
    have hfind : ((l.take w).zipIdx.findIdx fun x => !ok x.2 x.1) = span p (l.take w) :=
      findIdx_zipIdx_eq_span fun i _ hi => hok i (by omega)
    conv_rhs => rw [← List.take_append_drop w l, span_append, hlen]
    rw [hfind, hnext]
  · exact hnext l

lemma blocks_eq_span (hok : ∀ i < w, ∀ c, ok i c = p c) (hnext : ∀ l, next l = span p l)
    (n : Nat) (l : List α) : blocks w ok next n l = span p l := by
  induction n generalizing l with
  | zero => exact hnext l
  | succ n ih => exact block_eq_span hok ih l

end block

end SpanLib
