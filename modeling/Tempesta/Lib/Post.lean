import Mathlib

/-!
Postconditions of computations that may fail: a failure is one of the permitted
ones, a result meets the condition.
-/

namespace PostLib

universe u v w
variable {ε : Type u} {α : Type v} {β : Type v} {E : ε → Prop}

def Post (E : ε → Prop) (Q : α → Prop) : Except ε α → Prop
  | .error e => E e
  | .ok a => Q a

variable {x : Except ε α} {Q : α → Prop}

lemma Post.of_ok {a : α} (h : Post E Q x) (hx : x = .ok a) : Q a := by
  rw [hx] at h
  exact h

lemma Post.of_error {e : ε} (h : Post E Q x) (hx : x = .error e) : E e := by
  rw [hx] at h
  exact h

variable {P : α → Prop}

lemma Post.mono (h : Post E P x) (hpq : ∀ a, P a → Q a) : Post E Q x := by
  cases x with
  | error e => exact h
  | ok a => exact hpq a h

lemma Post.bind {Q : β → Prop} {f : α → Except ε β} (h : Post E P x)
    (hf : ∀ a, P a → Post E Q (f a)) : Post E Q (x >>= f) := by
  cases x with
  | error e => exact h
  | ok a => exact hf a h

lemma Post.map {Q : β → Prop} {f : α → β} (h : Post E P x) (hf : ∀ a, P a → Q (f a)) :
    Post E Q (f <$> x) := by
  cases x with
  | error e => exact h
  | ok a => exact hf a h

lemma Post.ite {c : Prop} [Decidable c] {y : Except ε α} (hx : c → Post E Q x)
    (hy : ¬c → Post E Q y) : Post E Q (if c then x else y) := by
  by_cases h : c
  · rw [if_pos h]
    exact hx h
  · rw [if_neg h]
    exact hy h

/-- A check whose failure is permitted -/
theorem Post.check {c : Prop} [Decidable c] {e : ε} (he : E e) (h : ¬c → Post E Q x) :
    Post E Q (if c then .error e else x) :=
  .ite (fun _ => he) h

/-- A loop over a list keeps what each turn keeps. -/
theorem Post.foldlM {P : β → Prop} {f : β → α → Except ε β} (as : List α)
    (hf : ∀ b a, P b → Post E P (f b a)) {b : β} (hb : P b) : Post E P (as.foldlM f b) := by
  induction as generalizing b with
  | nil => exact hb
  | cons a as ih =>
    rw [List.foldlM_cons]
    exact (hf b a hb).bind fun b' hb' => ih hb'

end PostLib
