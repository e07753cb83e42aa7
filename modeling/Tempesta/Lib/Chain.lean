import Tempesta.Lib.Scan

/-!
Words read letter by letter. A table gives each of its words a value; while letters
arrive, what was seen is the beginning of a word, a whole word, or no longer either.
-/

namespace ChainLib

open List ScanLib

universe u v
variable {α : Type u} {β : Type v}

/-- Some word of the table begins with `q`. -/
def Begins (table : List (List α × β)) (q : List α) : Prop := ∃ x ∈ table, q <+: x.1

/-- A word of the table, but not all of it -/
def Part (table : List (List α × β)) (q : List α) : Prop := ∃ x ∈ table, q <+: x.1 ∧ q ≠ x.1

/-- No word of the table begins with another one. -/
def PrefixFree (table : List (List α × β)) : Prop :=
  ∀ x ∈ table, ∀ y ∈ table, x.1 <+: y.1 → x = y

/-- What a letter does -/
inductive Move (β : Type v) where
  | whole (value : β)
  | part
  | off

section words
variable {table : List (List α × β)} {q : List α} {c : α} {b : β}

lemma Part.begins (h : Part table q) : Begins table q := by
  obtain ⟨x, hx, hle, -⟩ := h
  exact ⟨x, hx, hle⟩

lemma Begins.of_append {l : List α} (h : Begins table (q ++ l)) : Begins table q := by
  obtain ⟨x, hx, hle⟩ := h
  exact ⟨x, hx, (prefix_append q l).trans hle⟩

lemma Part.of_begins_append (h : Begins table (q ++ [c])) : Part table q := by
  obtain ⟨x, hx, hle⟩ := h
  refine ⟨x, hx, (prefix_append q [c]).trans hle, ?_⟩
  rintro rfl
  have hlen := hle.length_le
  rw [length_append, length_singleton] at hlen
  omega

lemma begins_cases (h : Begins table q) : (∃ b, (q, b) ∈ table) ∨ Part table q := by
  obtain ⟨x, hx, hle⟩ := h
  by_cases heq : q = x.1
  · exact .inl ⟨x.2, by rw [heq]; exact hx⟩
  · exact .inr ⟨x, hx, hle, heq⟩

lemma not_begins_of_mem (hfree : PrefixFree table) (h : (q, b) ∈ table) (c : α) :
    ¬ Part table q ∧ ¬ Begins table (q ++ [c]) := by
  have hpart : ¬ Part table q := by
    rintro ⟨x, hx, hle, hne⟩
    exact hne (congrArg Prod.fst (hfree _ h x hx hle))
  exact ⟨hpart, fun hb => hpart (.of_begins_append hb)⟩

/-- Symbols that stand for letters are part of a word, leave the table at some letter, or
begin with a whole word. -/
theorem split_cases {γ : Type*} (f : γ → α) (hnil : Part table []) (w : List γ) :
    Part table (w.map f) ∨
      (∃ q c l, w = q ++ c :: l ∧ Part table (q.map f) ∧ ¬ Begins table (q.map f ++ [f c])) ∨
      ∃ q b l, w = q ++ l ∧ (q.map f, b) ∈ table := by
  induction w using List.reverseRecOn with
  | nil => exact .inl hnil
  | append_singleton w c ih =>
    obtain hpart | ⟨q, d, l, rfl, hpart, hleave⟩ | ⟨q, b, l, rfl, hmem⟩ := ih
    · rw [map_append, map_singleton]
      by_cases hb : Begins table (w.map f ++ [f c])
      · obtain ⟨b, hmem⟩ | hpart := begins_cases hb
        · exact .inr (.inr ⟨w ++ [c], b, [], (append_nil _).symm, by simpa using hmem⟩)
        · exact .inl hpart
      · exact .inr (.inl ⟨w, c, [], rfl, hpart, hb⟩)
    · exact .inr (.inl ⟨q, d, l ++ [c], by simp, hpart, hleave⟩)
    · exact .inr (.inr ⟨q, b, l ++ [c], by simp, hmem⟩)

/-- The letters leave the table at one place. -/
theorem leave_unique {q' l l' : List α} {c' : α} (heq : q ++ c :: l = q' ++ c' :: l')
    (hb : Begins table q) (hb' : Begins table q') (hc : ¬ Begins table (q ++ [c]))
    (hc' : ¬ Begins table (q' ++ [c'])) : q = q' ∧ c = c' ∧ l = l' := by
  have hno : ∀ {p p' r r' : List α} {d d' : α}, p ++ d :: r = p' ++ d' :: r' →
      Begins table p' → ¬ Begins table (p ++ [d]) → p'.length ≤ p.length := by
    intro p p' r r' d d' heq hb' hd
    by_contra hlt
    have hlong : p ++ [d] <+: p' ++ d' :: r' := heq ▸ ⟨r, by simp⟩
    have hpre : p ++ [d] <+: p' :=
      prefix_of_prefix_length_le hlong (prefix_append _ _)
        (by rw [length_append, length_singleton]; omega)
    obtain ⟨x, hx, hle⟩ := hb'
    exact hd ⟨x, hx, hpre.trans hle⟩
  have hle := hno heq hb' hc
  have hge := hno heq.symm hb hc'
  obtain ⟨hq, hcl⟩ := append_inj heq (by omega)
  obtain ⟨hcc, hll⟩ := cons_eq_cons.mp hcl
  exact ⟨hq, hcc, hll⟩

end words

section move
variable [DecidableEq α] {table : List (List α × β)} {q : List α} {c : α} {b : β}

instance (q : List α) : Decidable (Begins table q) :=
  inferInstanceAs (Decidable (∃ x ∈ table, q <+: x.1))

instance (q : List α) : Decidable (Part table q) :=
  inferInstanceAs (Decidable (∃ x ∈ table, q <+: x.1 ∧ q ≠ x.1))

instance [DecidableEq β] : Decidable (PrefixFree table) :=
  inferInstanceAs (Decidable (∀ x ∈ table, ∀ y ∈ table, x.1 <+: y.1 → x = y))

/-- The letter `c` behind `q` -/
def move (table : List (List α × β)) (q : List α) (c : α) : Move β :=
  match table.find? fun x => x.1 == q ++ [c] with
  | some x => .whole x.2
  | none => if Begins table (q ++ [c]) then .part else .off

lemma move_of_mem (hfree : PrefixFree table) (h : (q ++ [c], b) ∈ table) :
    move table q c = .whole b := by
  unfold move
  cases hfind : table.find? fun x => x.1 == q ++ [c] with
  | none =>
    have := find?_eq_none.mp hfind _ h
    simp at this
  | some y =>
    have hy : y.1 = q ++ [c] := by simpa using find?_some hfind
    have hxy : y = (q ++ [c], b) :=
      hfree y (mem_of_find?_eq_some hfind) _ h (by simp [hy])
    rw [hxy]

lemma move_of_part (hfree : PrefixFree table) (h : Part table (q ++ [c])) :
    move table q c = .part := by
  have hnone : (table.find? fun x => x.1 == q ++ [c]) = none := by
    rw [find?_eq_none]
    intro y hy hyq
    obtain ⟨x, hx, hle, hne⟩ := h
    have heq : y.1 = q ++ [c] := by simpa using hyq
    rw [← heq] at hle hne
    exact hne (congrArg Prod.fst (hfree y hy x hx hle))
  unfold move
  rw [hnone]
  exact if_pos h.begins

lemma move_of_not_begins (h : ¬ Begins table (q ++ [c])) : move table q c = .off := by
  have hnone : (table.find? fun x => x.1 == q ++ [c]) = none := by
    rw [find?_eq_none]
    intro y hy hyq
    have heq : y.1 = q ++ [c] := by simpa using hyq
    exact h ⟨y, hy, by simp [heq]⟩
  unfold move
  rw [hnone]
  exact if_neg h

lemma part_of_move (h : move table q c = .part) : Part table (q ++ [c]) := by
  unfold move at h
  split at h
  · cases h
  · rename_i hfind
    split at h
    · rename_i hbegins
      obtain ⟨b, hmem⟩ | hpart := begins_cases hbegins
      · exact absurd (beq_self_eq_true _) (find?_eq_none.mp hfind _ hmem)
      · exact hpart
    · cases h

lemma not_begins_of_move (h : move table q c = .off) : ¬ Begins table (q ++ [c]) := by
  unfold move at h
  split at h
  · cases h
  · split at h
    · cases h
    · assumption

end move

section scan
variable [DecidableEq α] {table : List (List α × β)} {σ : Type*} {ρ : Type*} {γ : Type*}
  {step : σ → γ → σ ⊕ ρ} {f : γ → α} {state : List α → σ} {seen : List α}

/-- A scanner that waits in `state q` while `q` is part of a word -/
theorem scan_part (hfree : PrefixFree table)
    (hstep : ∀ q c, move table q (f c) = .part → step (state q) c = .inl (state (q ++ [f c])))
    (q l : List γ) (h : Part table (seen ++ q.map f)) :
    scan step (state seen) (q ++ l) = scan step (state (seen ++ q.map f)) l := by
  induction q generalizing seen with
  | nil => rw [nil_append, map_nil, append_nil]
  | cons c q ih =>
    rw [map_cons, append_cons] at h ⊢
    have hpart : Part table (seen ++ [f c]) := by
      obtain ⟨x, hx, hle, hne⟩ := h
      have hpre : seen ++ [f c] <+: x.1 := (prefix_append _ _).trans hle
      refine ⟨x, hx, hpre, ?_⟩
      intro heq
      rw [← heq] at hle hne
      exact hne (hle.eq_of_length_le (by simp))
    rw [← ih h]
    exact scan_next (hstep seen c (move_of_part hfree hpart))

/-- The last letter of a word -/
theorem scan_whole (hfree : PrefixFree table)
    (hstep : ∀ q c, move table q (f c) = .part → step (state q) c = .inl (state (q ++ [f c])))
    {q : List γ} {b : β} (hq : q ≠ []) (h : (seen ++ q.map f, b) ∈ table) (l : List γ) :
    ∃ q' c, move table q' (f c) = .whole b ∧
      scan step (state seen) (q ++ l) = scan step (state q') (c :: l) := by
  obtain rfl | ⟨q, c, rfl⟩ := q.eq_nil_or_concat
  · exact absurd rfl hq
  · rw [concat_eq_append] at h ⊢
    rw [map_append, map_singleton, ← append_assoc] at h
    have hpart : Part table (seen ++ q.map f) := .of_begins_append ⟨_, h, prefix_rfl⟩
    refine ⟨seen ++ q.map f, c, move_of_mem hfree h, ?_⟩
    rw [append_assoc]
    exact scan_part hfree hstep q (c :: l) hpart

end scan

end ChainLib
