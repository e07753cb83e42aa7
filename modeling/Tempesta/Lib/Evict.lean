import Mathlib

/-!
Eviction from a queue: the eldest elements leave until the rest costs at most
the limit.
-/

namespace EvictLib

variable {α β : Type*}

/-- The elements that leave. -/
def evicted (cost : α → Nat) (limit : Nat) : List α → List α
  | [] => []
  | x :: xs => if limit < ((x :: xs).map cost).sum then x :: evicted cost limit xs else []

lemma evicted_append_drop (cost : α → Nat) (limit : Nat) (xs : List α) :
    evicted cost limit xs ++ xs.drop (evicted cost limit xs).length = xs := by
  induction xs with
  | nil => rfl
  | cons x xs ih =>
    simp only [evicted]
    split
    · simpa using ih
    · rfl

lemma sum_drop_evicted_le (cost : α → Nat) (limit : Nat) (xs : List α) :
    ((xs.drop (evicted cost limit xs).length).map cost).sum ≤ limit := by
  induction xs with
  | nil => simp
  | cons x xs ih =>
    simp only [evicted]
    split
    · simpa using ih
    · next h => simpa using h

lemma evicted_map (f : β → α) (cost : α → Nat) (limit : Nat) (xs : List β) :
    evicted cost limit (xs.map f) = (evicted (cost ∘ f) limit xs).map f := by
  induction xs with
  | nil => rfl
  | cons x xs ih =>
    simp only [List.map_cons, evicted, ih, List.map_map, Function.comp_apply]
    split
    · rfl
    · rfl

lemma evicted_congr {cost cost' : α → Nat} (limit : Nat) {xs : List α}
    (h : ∀ x ∈ xs, cost x = cost' x) : evicted cost limit xs = evicted cost' limit xs := by
  induction xs with
  | nil => rfl
  | cons x xs ih =>
    rw [evicted, evicted, ih fun y hy => h y (List.mem_cons_of_mem x hy), List.map_congr_left h]

end EvictLib
