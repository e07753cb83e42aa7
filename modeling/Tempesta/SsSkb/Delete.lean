import Tempesta.SsSkb.Room

/-!
Data of one part of a buffer that is deleted. The rest of the part is one fragment, or two if
the data was in its middle.
-/

namespace Tempesta.SsSkb

open List

variable {s s' : SkBuff} {next next' : List SkBuff} {i len n off : Nat} {f x : Frag}
  {fs : List Frag} {env : SkbEnv} {mem : Nat × Nat}

section remove
variable (hs : Sound s) (hnext : ∀ u ∈ next, Sound u) (hf : s.frags[i]? = some f)
include hs hnext hf

lemma evict_holds :
    Holds s.linear (s.frags.take i ++ s.frags.drop (i + 1)) next
      (SkBuff.shrink { s with frags := s.frags.take i ++ s.frags.drop (i + 1) } f.size) next := by
  obtain ⟨hi, hget⟩ := List.getElem?_eq_some_iff.mp hf
  have hmax := hs.frags_le
  have hdata : s.dataLen = sizes s.frags := hs.dataLen_eq
  have hlen := hs.len_eq
  have hsum := congrArg sizes (take_append_drop i s.frags)
  rw [drop_eq_getElem_cons hi, sizes_append, sizes_cons, hget] at hsum
  have hshort : (s.frags.take i ++ s.frags.drop (i + 1)).length ≤ maxSkbFrags := by
    rw [length_append, length_take, length_drop]
    omega
  refine ⟨rfl, (take_of_length_le hshort).symm, ⟨hshort, ?_, ?_⟩, .inl ⟨hshort, rfl⟩, hnext⟩
  · show s.dataLen - f.size = sizes (s.frags.take i ++ s.frags.drop (i + 1))
    rw [sizes_append]
    omega
  · show s.len - f.size = s.linear.size + (s.dataLen - f.size)
    omega

lemma refill_holds (hx : x.size + len = f.size) :
    Holds s.linear (s.frags.set i x) next ((s.fillPageDesc i x).shrink len) next := by
  have hmax := hs.frags_le
  have hdata : s.dataLen = sizes s.frags := hs.dataLen_eq
  have hlen := hs.len_eq
  have hsum := sizes_set hf x
  have hshort : (s.frags.set i x).length ≤ maxSkbFrags := by
    rw [length_set]
    exact hmax
  refine ⟨rfl, (take_of_length_le hshort).symm, ⟨hshort, ?_, ?_⟩, .inl ⟨hshort, rfl⟩, hnext⟩
  · show s.dataLen - len = sizes (s.frags.set i x)
    omega
  · show s.len - len = s.linear.size + (s.dataLen - len)
    omega

end remove

lemma set_eq_middle (hi : i < fs.length) (x : Frag) :
    fs.set i x = fs.take i ++ x :: fs.drop (i + 1) := by
  rw [set_eq_take_append_cons_drop, if_pos hi]

lemma Frag.cells_behind (f : Frag) (h : n ≤ f.size) : (f.behind n).cells = f.cells.drop n := by
  rw [← f.cells_split h, drop_left' (by rw [Frag.length_cells, f.size_upto h])]

lemma SkBuff.shrink_shrink (s : SkBuff) (m n : Nat) :
    (s.shrink m).shrink n = s.shrink (m + n) := by
  simp only [SkBuff.shrink, Nat.sub_sub]

section delete
variable (hs : Sound s) (hnext : ∀ u ∈ next, Sound u)
include hs hnext

lemma extendPgfrags_one (hi : i ≤ s.frags.length)
    (h : extendPgfrags env s next i 1 = some (s', next')) :
    Holds s.linear (s.frags.take i ++ hole :: s.frags.drop i) next s' next' := by
  have hlost : ¬ SlotLost s i 1 := fun h => absurd h.2.2 (by decide)
  have hholds := extendPgfrags_holds hs hnext hi (by decide) hlost h
  have hrow : withHoles s.frags i 1 = s.frags.take i ++ hole :: s.frags.drop i := by
    rw [withHoles, append_assoc]
    rfl
  rw [hrow] at hholds
  exact hholds

lemma splitPgfragDel_holds (hf : s.frags[i]? = some f)
    (h : splitPgfragDel env s next i off len = some (s', next')) :
    ∃ row, Holds s.linear row next s' next' ∧ row.flatMap Frag.cells =
      (s.frags.take i).flatMap Frag.cells ++ (f.cells.take off ++ f.cells.drop (off + len)) ++
        (s.frags.drop (i + 1)).flatMap Frag.cells := by
  obtain ⟨hi, hget⟩ := List.getElem?_eq_some_iff.mp hf
  have hmax := hs.frags_le
  have hseventeen : maxSkbFrags = 17 := rfl
  have hgetD : s.frags.getD i hole = f := by rw [getD_eq_getElem?_getD, hf, Option.getD_some]
  have hcells := f.length_cells
  have hrow : ∀ x : Frag, x.cells = f.cells.take off ++ f.cells.drop (off + len) →
      (s.frags.set i x).flatMap Frag.cells = (s.frags.take i).flatMap Frag.cells ++
        (f.cells.take off ++ f.cells.drop (off + len)) ++
          (s.frags.drop (i + 1)).flatMap Frag.cells := by
    intro x hx
    rw [set_eq_middle hi, flatMap_append, flatMap_cons, hx]
    simp only [append_assoc]
  rw [splitPgfragDel, hgetD] at h
  dsimp only at h
  by_cases hlong : f.size < off + len
  · rw [if_pos hlong] at h
    cases h
  rw [if_neg hlong] at h
  by_cases hwhole : off = 0 ∧ len = f.size
  · rw [if_pos hwhole] at h
    obtain ⟨rfl, rfl⟩ := hwhole
    obtain ⟨rfl, rfl⟩ := Prod.mk.inj (Option.some.inj h)
    refine ⟨_, evict_holds hs hnext hf, ?_⟩
    have hnone : f.cells.drop (0 + f.size) = [] := drop_of_length_le (by omega)
    rw [take_zero, hnone, flatMap_append, append_nil, append_nil]
  rw [if_neg hwhole] at h
  by_cases hzero : off = 0
  · rw [if_pos hzero] at h
    subst hzero
    obtain ⟨rfl, rfl⟩ := Prod.mk.inj (Option.some.inj h)
    have hsize := f.size_behind len
    refine ⟨_, refill_holds hs hnext hf (by omega), hrow _ ?_⟩
    rw [f.cells_behind (by omega), take_zero, nil_append, Nat.zero_add]
  rw [if_neg hzero] at h
  by_cases htail : off + len = f.size
  · rw [if_pos htail] at h
    obtain ⟨rfl, rfl⟩ := Prod.mk.inj (Option.some.inj h)
    have hsize := f.size_upto (n := off) (by omega)
    refine ⟨_, refill_holds hs hnext hf (by omega), hrow _ ?_⟩
    have hnone : f.cells.drop (off + len) = [] := drop_of_length_le (by omega)
    rw [f.cells_upto (by omega), hnone, append_nil]
  rw [if_neg htail] at h
  obtain ⟨⟨s₁, next₁⟩, hext, h⟩ := Option.bind_eq_some_iff.mp h
  have hlen : (s.frags.take i).length = i := by
    rw [length_take, Nat.min_eq_left (Nat.le_of_lt hi)]
  have hholds := extendPgfrags_one hs hnext hi hext
  rw [take_succ_eq_append_getElem hi, hget, append_assoc, singleton_append] at hholds
  have hup := f.size_upto (n := off) (by omega)
  have hbehind := f.size_behind (off + len)
  refine ⟨s.frags.take i ++ f.upto off :: f.behind (off + len) :: s.frags.drop (i + 1), ?_, ?_⟩
  · have htrim := hholds.trim hlen (by omega) (show off < f.size by omega)
    have hhole : (s.frags.take i ++ f.upto off :: hole :: s.frags.drop (i + 1))[i + 1]? =
        some hole := by
      rw [getElem?_append_right (by omega), hlen, Nat.add_sub_cancel_left]
      rfl
    have hset : (s.frags.take i ++ f.upto off :: hole :: s.frags.drop (i + 1)).set (i + 1)
        (f.behind (off + len)) =
          s.frags.take i ++ f.upto off :: f.behind (off + len) :: s.frags.drop (i + 1) := by
      rw [set_append_right _ _ (by omega), hlen, Nat.add_sub_cancel_left]
      rfl
    have hle := size_le_sizes (hholds.frag_eq hlen (by omega))
    have hdata : s₁.dataLen = sizes s₁.frags := hholds.sound.dataLen_eq
    have hslen := hholds.sound.len_eq
    have hzeroSize : hole.size = 0 := rfl
    have hrest := f.size_behind off
    dsimp only at h
    by_cases hsame : i < maxSkbFrags - 1
    · rw [if_pos hsame] at h
      obtain ⟨rfl, rfl⟩ := Prod.mk.inj (Option.some.inj h)
      have hlast := htrim.set_here hhole (by omega) (f.behind (off + len)) (s₁.len - len)
        (s₁.dataLen - len)
        (show s₁.len - len + hole.size = s₁.len - (f.behind off).size +
          (f.behind (off + len)).size by omega)
        (show s₁.dataLen - len + hole.size = s₁.dataLen - (f.behind off).size +
          (f.behind (off + len)).size by omega)
      rw [hset] at hlast
      exact hlast
    · rw [if_neg hsame] at h
      cases next₁ with
      | nil => cases h
      | cons t rest =>
        obtain ⟨rfl, rfl⟩ := Prod.mk.inj (Option.some.inj h)
        have hshrink : ((s₁.fillPageDesc i (f.upto off)).shrink
            (f.behind (off + len)).size).shrink len =
              (s₁.fillPageDesc i (f.upto off)).shrink (f.behind off).size := by
          rw [SkBuff.shrink_shrink]
          congr 1
          omega
        have hlast := htrim.set_next hhole (by omega) (f.behind (off + len))
          (t.len + (f.behind (off + len)).size) (t.dataLen + (f.behind (off + len)).size)
          (by omega) (by omega)
        rw [hset, show i + 1 - maxSkbFrags = (i + 1) % maxSkbFrags by rw [hseventeen]; omega,
          ← hshrink] at hlast
        exact hlast
  · rw [flatMap_append, flatMap_cons, flatMap_cons, f.cells_upto (by omega),
      f.cells_behind (by omega)]
    simp only [append_assoc]

lemma splitLinearDel_holds (hlen : off + len ≤ s.linear.size)
    (h : splitLinearDel env s next off len = some (s', next')) :
    ∃ row, Holds (s.linear.upto off) row next s' next' ∧ row.flatMap Frag.cells =
      s.linear.cells.drop (off + len) ++ s.frags.flatMap Frag.cells := by
  have hcells := s.linear.length_cells
  have hup := s.linear.size_upto (n := off) (by omega)
  have hslen := hs.len_eq
  rw [splitLinearDel] at h
  dsimp only at h
  by_cases htail : s.linear.size - off = len
  · rw [if_pos htail] at h
    obtain ⟨rfl, rfl⟩ := Prod.mk.inj (Option.some.inj h)
    have hnone : s.linear.cells.drop (off + len) = [] := drop_of_length_le (by omega)
    refine ⟨s.frags, ⟨rfl, (take_of_length_le hs.frags_le).symm,
      ⟨hs.frags_le, hs.dataLen_eq, ?_⟩, .inl ⟨hs.frags_le, rfl⟩, hnext⟩, ?_⟩
    · show s.len - len = (s.linear.upto off).size + s.dataLen
      omega
    · rw [hnone, nil_append]
  · rw [if_neg htail] at h
    obtain ⟨⟨s₁, next₁⟩, hext, h⟩ := Option.map_eq_some_iff.mp h
    have hholds := extendPgfrags_one hs hnext (Nat.zero_le _) hext
    obtain ⟨rfl, rfl⟩ := Prod.mk.inj h
    have hbehind := s.linear.size_behind (off + len)
    refine ⟨s.linear.behind (off + len) :: s.frags, ?_, ?_⟩
    · have hset := hholds.set_linear (i := 0) rfl (by decide)
        (show (s.linear.upto off).size + len + (s.linear.behind (off + len)).size = s.linear.size by
          omega) s₁.room true
      rw [hholds.linear, show s.linear.size - off - len =
        (s.linear.behind (off + len)).size by omega]
      exact hset
    · rw [flatMap_cons, s.linear.cells_behind hlen]

end delete

section memory
variable (hnskb : env.nskb = some mem)
include hnskb

lemma splitPgfragDel_some (hs : Sound s) (hf : s.frags[i]? = some f) (hlen : off + len ≤ f.size) :
    ∃ r, splitPgfragDel env s next i off len = some r := by
  obtain ⟨hi, -⟩ := List.getElem?_eq_some_iff.mp hf
  have hmax := hs.frags_le
  have hseventeen : maxSkbFrags = 17 := rfl
  have hgetD : s.frags.getD i hole = f := by rw [getD_eq_getElem?_getD, hf, Option.getD_some]
  rw [splitPgfragDel, hgetD]
  dsimp only
  rw [if_neg (Nat.not_lt.mpr hlen)]
  obtain ⟨s₁, next₁, hext, hne⟩ := extendPgfrags_some hnskb s next (i + 1) 1
  rw [hext, Option.bind_some]
  dsimp only
  split_ifs with hwhole hzero htail hsame
  · exact ⟨_, rfl⟩
  · exact ⟨_, rfl⟩
  · exact ⟨_, rfl⟩
  · exact ⟨_, rfl⟩
  · obtain ⟨t, rest, rfl⟩ := exists_cons_of_ne_nil (hne (by omega))
    exact ⟨_, rfl⟩

lemma splitLinearDel_some (s : SkBuff) (next : List SkBuff) (off len : Nat) :
    ∃ r, splitLinearDel env s next off len = some r := by
  rw [splitLinearDel]
  dsimp only
  split_ifs with htail
  · exact ⟨_, rfl⟩
  · obtain ⟨s₁, next₁, hext, -⟩ := extendPgfrags_some hnskb s next 0 1
    rw [hext]
    exact ⟨_, rfl⟩

end memory

/-- All of a fragment from `off` on -/
theorem splitPgfragDel_rest (env : SkbEnv) (next : List SkBuff) (hf : s.frags[i]? = some f)
    (hoff : off < f.size) :
    splitPgfragDel env s next i off (f.size - off) = some
      (if off = 0 then
        SkBuff.shrink { s with frags := s.frags.take i ++ s.frags.drop (i + 1) } f.size
      else (s.fillPageDesc i (f.upto off)).shrink (f.size - off), next) := by
  have hgetD : s.frags.getD i hole = f := by rw [getD_eq_getElem?_getD, hf, Option.getD_some]
  rw [splitPgfragDel, hgetD]
  dsimp only
  rw [if_neg (by omega)]
  by_cases hzero : off = 0
  · rw [if_pos ⟨hzero, by omega⟩, if_pos hzero, hzero, Nat.sub_zero]
  · rw [if_neg (fun h => hzero h.1), if_neg hzero, if_neg hzero, if_pos (by omega)]

end Tempesta.SsSkb
