import Tempesta.SsSkb.Slots

/-!
New data in a list of buffers. The place for it is given by an address, and found
again from that address.
-/

namespace Tempesta.SsSkb

open List

namespace Place

/-- A place is between two bytes of its part, or at one end of it. -/
def Valid (s : SkBuff) : Place → Prop
  | .linear off => off ≤ s.linear.size
  | .frag i off => ∃ f, s.frags[i]? = some f ∧ off ≤ f.size

def addr (s : SkBuff) : Place → Nat
  | .linear off => s.linear.addr + off
  | .frag i off => (s.frags.getD i hole).addr + off

def before (s : SkBuff) : Place → List (Nat × UInt8)
  | .linear off => s.linear.cells.take off
  | .frag i off =>
    s.linear.cells ++ (s.frags.take i).flatMap Frag.cells ++ (s.frags.getD i hole).cells.take off

end Place

def It.before (s : SkBuff) (next : List SkBuff) (it : It) : List (Nat × UInt8) :=
  match it.skb, next with
  | 0, _ => it.data.before s
  | _, [] => []
  | _, t :: _ => s.cells ++ it.data.before t

/-- The same place as it is found by `locate` -/
def Spot.place (s : SkBuff) : Spot → Place
  | .linear off => .linear off
  | .front => .linear s.linear.size
  | .inside i off => .frag i off
  | .after i => .frag i (s.frags.getD i hole).size

/-- `len` new bytes at a place, `it` points at them, and the counters are right. -/
structure Inserted (s : SkBuff) (next : List SkBuff) (pl : Place) (len : Nat) (s' : SkBuff)
    (next' : List SkBuff) (it : It) : Prop where
  data : ∃ new rest, new.length = len ∧ cells (s :: next) = pl.before s ++ rest ∧
    cells (s' :: next') = pl.before s ++ new ++ rest
  points : it.before s' next' = pl.before s
  sound : ∀ u ∈ s' :: next', Sound u

/-- The slot `i` of a row that is cut at `MAX_SKB_FRAGS` -/
def slotIt (i : Nat) : It :=
  if i < maxSkbFrags then ⟨0, .frag i 0⟩ else ⟨1, .frag (i - maxSkbFrags) 0⟩

variable {row a b : List Frag} {lin new f : Frag} {next next' : List SkBuff}
  {i len off pspt page n : Nat} {s s' : SkBuff} {pl pl' : Place} {it : It} {env : SkbEnv}
  {sp : Spot} {mem : Nat × Nat}

lemma Holds.slotIt_before (h : Holds lin row next s next') (hi : i < row.length) :
    (slotIt i).before s next' = lin.cells ++ (row.take i).flatMap Frag.cells := by
  rw [slotIt]
  by_cases hlt : i < maxSkbFrags
  · rw [if_pos hlt]
    show s.linear.cells ++ (s.frags.take i).flatMap Frag.cells ++ [] = _
    rw [append_nil, h.linear, h.frags, take_take, Nat.min_eq_left (Nat.le_of_lt hlt)]
  · rw [if_neg hlt]
    obtain ⟨hle, -⟩ | ⟨-, t, old, rest, rfl, hlin, hfrags, -⟩ := h.rest
    · omega
    have hempty : t.linear.cells = [] := by rw [Frag.cells, hlin]; rfl
    have hlen : i - maxSkbFrags ≤ (row.drop maxSkbFrags).length := by
      rw [length_drop]
      omega
    show s.cells ++ (t.linear.cells ++ (t.frags.take (i - maxSkbFrags)).flatMap Frag.cells
      ++ []) = _
    rw [append_nil, hempty, nil_append, SkBuff.cells, h.linear, h.frags, hfrags,
      take_append_of_le_length hlen, append_assoc, ← flatMap_append]
    have hsplit : row.take maxSkbFrags ++ (row.drop maxSkbFrags).take (i - maxSkbFrags) =
        row.take i := by
      rw [← take_add]
      congr 1
      omega
    rw [hsplit]

lemma set_middle (a b : List Frag) (x y : Frag) :
    (a ++ x :: b).set a.length y = a ++ y :: b := by
  rw [set_append_right _ _ (Nat.le_refl _), Nat.sub_self, set_cons_zero]

lemma Holds.inserted (h : Holds lin (a ++ new :: b) next s' next') (hi : a.length = i)
    (hlen : new.size = len) (hbefore : lin.cells ++ a.flatMap Frag.cells = pl.before s)
    (hcells : cells (s :: next) = pl.before s ++ (b.flatMap Frag.cells ++ cells next)) :
    Inserted s next pl len s' next' (slotIt i) := by
  subst hi
  refine ⟨⟨new.cells, _, ?_, hcells, ?_⟩, ?_, forall_mem_cons.mpr ⟨h.sound, h.sound_rest⟩⟩
  · rw [Frag.length_cells, hlen]
  · rw [h.cells_eq, flatMap_append, flatMap_cons, ← hbefore]
    simp only [append_assoc]
  · rw [h.slotIt_before (by rw [length_append, length_cons]; omega), ← hbefore,
      take_left' rfl]

lemma cells_frags (s : SkBuff) (next : List SkBuff) (i : Nat) : cells (s :: next) =
    s.linear.cells ++ (s.frags.take i).flatMap Frag.cells ++
      ((s.frags.drop i).flatMap Frag.cells ++ cells next) := by
  have hfrags := congrArg (List.flatMap Frag.cells) (take_append_drop i s.frags)
  rw [flatMap_append] at hfrags
  rw [cells_cons, SkBuff.cells, ← hfrags]
  simp only [append_assoc]

lemma Holds.frag_eq (h : Holds lin (a ++ f :: b) next s next') (hlen : a.length = i)
    (hi : i < maxSkbFrags) : s.frags[i]? = some f := by
  rw [h.frags, getElem?_take_of_lt hi, getElem?_append_right (by omega), hlen,
    Nat.sub_self, getElem?_cons_zero]

/-- The fragment `f` is cut, and its end is still to be put into another slot. -/
theorem Holds.trim (h : Holds lin (a ++ f :: b) next s next') (hlen : a.length = i)
    (hi : i < maxSkbFrags) (hoff : off < f.size) :
    Holds lin (a ++ f.upto off :: b) next
      ((s.fillPageDesc i (f.upto off)).shrink (f.behind off).size) next' := by
  have hup := f.size_upto (Nat.le_of_lt hoff)
  have hbehind := f.size_behind off
  have hget : (a ++ f :: b)[i]? = some f := by
    rw [getElem?_append_right (by omega), hlen, Nat.sub_self, getElem?_cons_zero]
  have hle := size_le_sizes (h.frag_eq hlen hi)
  have hdata : s.dataLen = sizes s.frags := h.sound.dataLen_eq
  have hslen := h.sound.len_eq
  have hset := h.set_here hget hi (f.upto off) (s.len - (f.behind off).size)
    (s.dataLen - (f.behind off).size) (by omega) (by omega)
  have hmid := set_middle a b f (f.upto off)
  rw [hlen] at hmid
  rw [hmid] at hset
  exact hset

lemma middle_hole (hlen : a.length = i) (x : Frag) :
    (a ++ f :: new :: hole :: b)[i + 2]? = some hole ∧
      (a ++ f :: new :: hole :: b).set (i + 2) x = a ++ f :: new :: x :: b := by
  subst hlen
  constructor
  · rw [getElem?_append_right (by omega), Nat.add_sub_cancel_left]
    rfl
  · rw [set_append_right _ _ (by omega), Nat.add_sub_cancel_left]
    rfl

/-- `__it_next_data` finds the slot that was filled. -/
theorem Holds.itNextData_eq (h : Holds lin row next s next') (hi : i < row.length)
    (hmax : i ≤ maxSkbFrags) : itNextData s next' i = some (slotIt i) := by
  have hlen : s.frags.length = min maxSkbFrags row.length := by rw [h.frags, length_take]
  unfold itNextData
  rw [slotIt]
  by_cases hlt : i < maxSkbFrags
  · rw [if_pos (by omega), if_pos hlt]
  · rw [if_neg (by omega), if_neg hlt]
    obtain ⟨hle, -⟩ | ⟨-, t, old, rest, rfl, hlin, hfrags, -⟩ := h.rest
    · omega
    have hhead : t.headlen = 0 := by
      rw [(h.sound_rest t mem_cons_self).headlen_eq, Frag.size, hlin]
      rfl
    have hne : t.frags.length ≠ 0 := by
      rw [hfrags, length_append, length_drop]
      omega
    show (if t.headlen ≠ 0 then _ else if t.frags.length ≠ 0 then _ else _) = _
    rw [if_neg (not_not.mpr hhead), if_pos hne, show i - maxSkbFrags = 0 by omega]

section add
variable (hs : Sound s) (hnext : ∀ u ∈ next, Sound u)
include hs hnext

lemma newPgfrag_at (hi : i ≤ s.frags.length) (hn : 0 < n) (hn2 : n ≤ 2) (hlost : ¬ SlotLost s i n)
    (h : newPgfrag env s next len i n = some (s', next'))
    (hrow : withHoles s.frags i n = s.frags.take i ++ hole :: row) :
    ∃ new, new.size = len ∧ Holds s.linear (s.frags.take i ++ new :: row) next s' next' := by
  obtain ⟨page, -, hholds⟩ := newPgfrag_holds hs hnext hi hn hn2 hlost h
  have hlen : (s.frags.take i).length = i := by rw [length_take, Nat.min_eq_left hi]
  have hset := set_middle (s.frags.take i) row hole (newFrag env page len)
  rw [hlen] at hset
  rw [hrow, hset] at hholds
  exact ⟨_, size_newFrag env page len, hholds⟩

lemma newPgfrag_one (hi : i ≤ s.frags.length)
    (h : newPgfrag env s next len i 1 = some (s', next')) :
    ∃ new, new.size = len ∧
      Holds s.linear (s.frags.take i ++ new :: s.frags.drop i) next s' next' :=
  newPgfrag_at hs hnext hi (by decide) (by decide) (fun h => absurd h.2.2 (by decide)) h
    (append_assoc _ _ _)

lemma newPgfrag_two (hi : i ≤ s.frags.length) (hlost : ¬ SlotLost s i 2)
    (h : newPgfrag env s next len i 2 = some (s', next')) :
    ∃ new, new.size = len ∧
      Holds s.linear (s.frags.take i ++ new :: hole :: s.frags.drop i) next s' next' :=
  newPgfrag_at hs hnext hi (by decide) (by decide) hlost h (append_assoc _ _ _)

lemma splitLinearAdd_inserted (hoff : off < s.linear.size)
    (h : splitLinearAdd env s next off len = some (s', next', it)) :
    Inserted s next (.linear off) len s' next' it := by
  obtain ⟨⟨s₁, next₁⟩, hnew, heq⟩ := Option.map_eq_some_iff.mp h
  have hlost : ¬ SlotLost s 0 2 := by
    rintro ⟨hlen, hzero, -⟩
    rw [← hzero] at hlen
    exact absurd hlen (by decide)
  obtain ⟨new, hsize, hholds⟩ := newPgfrag_two hs hnext (Nat.zero_le _) hlost hnew
  simp only [Prod.mk.injEq] at heq
  obtain ⟨rfl, rfl, rfl⟩ := heq
  have hup := s.linear.size_upto (Nat.le_of_lt hoff)
  have hbehind := s.linear.size_behind off
  have hset := hholds.set_linear (i := 1) rfl (by decide)
    (show (s.linear.upto off).size + 0 + (s.linear.behind off).size = s.linear.size by omega)
    s₁.room true
  have hrow : (s.frags.take 0 ++ new :: hole :: s.frags.drop 0).set 1 (s.linear.behind off) =
      [] ++ new :: s.linear.behind off :: s.frags := rfl
  rw [hrow] at hset
  rw [← hbehind, hholds.linear]
  refine Holds.inserted hset rfl hsize ?_ ?_
  · rw [flatMap_nil, append_nil, s.linear.cells_upto (Nat.le_of_lt hoff)]
    rfl
  · have hsplit := s.linear.cells_split (Nat.le_of_lt hoff)
    rw [s.linear.cells_upto (Nat.le_of_lt hoff)] at hsplit
    rw [cells_cons, SkBuff.cells, ← hsplit, flatMap_cons, Place.before]
    simp only [append_assoc]

lemma between_inserted (hi : i ≤ s.frags.length)
    (hpl : pl.before s = s.linear.cells ++ (s.frags.take i).flatMap Frag.cells)
    (h : newPgfrag env s next len i 1 = some (s', next')) :
    Inserted s next pl len s' next' (slotIt i) := by
  obtain ⟨new, hsize, hholds⟩ := newPgfrag_one hs hnext hi h
  refine Holds.inserted hholds (by rw [length_take, Nat.min_eq_left hi]) hsize hpl.symm ?_
  rw [hpl]
  exact cells_frags s next i

lemma appended_inserted (hi : i ≤ s.frags.length)
    (hpl : pl.before s = s.linear.cells ++ (s.frags.take i).flatMap Frag.cells)
    (h : ((newPgfrag env s next len i 1).bind fun (skb, next) =>
      (itNextData skb next i).map fun it => (skb, next, it)) = some (s', next', it)) :
    Inserted s next pl len s' next' it := by
  obtain ⟨⟨s₁, next₁⟩, hnew, h⟩ := Option.bind_eq_some_iff.mp h
  obtain ⟨new, -, hholds⟩ := newPgfrag_one hs hnext hi hnew
  have hit := hholds.itNextData_eq (i := i)
    (by rw [length_append, length_take, length_cons]; omega)
    (Nat.le_trans hi hs.frags_le)
  dsimp only at h
  rw [hit, Option.map_some] at h
  simp only [Option.some.injEq, Prod.mk.injEq] at h
  obtain ⟨rfl, rfl, rfl⟩ := h
  exact between_inserted hs hnext hi hpl hnew

lemma splitPgfragAdd_inserted (hf : s.frags[i]? = some f) (hoff : off < f.size)
    (hlost : off ≠ 0 → ¬ SlotLost s (i + 1) 2)
    (h : splitPgfragAdd env s next i off len = some (s', next', it)) :
    Inserted s next (.frag i off) len s' next' it := by
  obtain ⟨hi, hget⟩ := List.getElem?_eq_some_iff.mp hf
  have hmax := hs.frags_le
  have hseventeen : maxSkbFrags = 17 := rfl
  have hgetD : s.frags.getD i hole = f := by rw [getD_eq_getElem?_getD, hf, Option.getD_some]
  rw [splitPgfragAdd] at h
  by_cases hzero : off = 0
  · rw [if_pos hzero] at h
    obtain ⟨⟨s₁, next₁⟩, hnew, heq⟩ := Option.map_eq_some_iff.mp h
    simp only [Prod.mk.injEq] at heq
    obtain ⟨rfl, rfl, rfl⟩ := heq
    have hslot : slotIt i = ⟨0, .frag i 0⟩ := if_pos (by omega)
    rw [← hslot, hzero]
    refine between_inserted hs hnext (Nat.le_of_lt hi) ?_ hnew
    rw [Place.before, take_zero, append_nil]
  · rw [if_neg hzero] at h
    obtain ⟨⟨s₁, next₁⟩, hnew, h⟩ := Option.bind_eq_some_iff.mp h
    obtain ⟨new, hsize, hholds⟩ := newPgfrag_two hs hnext hi (hlost hzero) hnew
    have htake : s.frags.take (i + 1) = s.frags.take i ++ [f] := by
      rw [take_succ_eq_append_getElem hi, hget]
    have hlen : (s.frags.take i).length = i := by
      rw [length_take, Nat.min_eq_left (Nat.le_of_lt hi)]
    rw [htake, append_assoc, singleton_append] at hholds
    have hfrag : s₁.frags.getD i hole = f := by
      rw [getD_eq_getElem?_getD, hholds.frag_eq hlen (by omega), Option.getD_some]
    have htrim := hholds.trim hlen (by omega) hoff
    have hhole : (s.frags.take i ++ f.upto off :: new :: hole :: s.frags.drop (i + 1))[i + 2]? =
        some hole := (middle_hole hlen hole).1
    have hset : (s.frags.take i ++ f.upto off :: new :: hole :: s.frags.drop (i + 1)).set (i + 2)
        (f.behind off) = s.frags.take i ++ f.upto off :: new :: f.behind off ::
          s.frags.drop (i + 1) := (middle_hole hlen (f.behind off)).2
    have hzeroSize : hole.size = 0 := rfl
    have hslot : (if i < maxSkbFrags - 1 then ⟨0, .frag (i + 1) 0⟩ else ⟨1, .frag 0 0⟩ : It) =
        slotIt (i + 1) := by
      rw [slotIt]
      by_cases hlast : i < maxSkbFrags - 1
      · rw [if_pos hlast, if_pos (by omega)]
      · rw [if_neg hlast, if_neg (by omega), show i + 1 - maxSkbFrags = 0 by omega]
    have hfinal : ∀ {s₂ next₂}, Holds s.linear (s.frags.take i ++
        f.upto off :: new :: f.behind off :: s.frags.drop (i + 1)) next s₂ next₂ →
        Inserted s next (.frag i off) len s₂ next₂ (slotIt (i + 1)) := by
      intro s₂ next₂ hrow
      have hsplit := f.cells_split (Nat.le_of_lt hoff)
      rw [f.cells_upto (Nat.le_of_lt hoff)] at hsplit
      have hbefore : s.linear.cells ++ (s.frags.take i ++ [f.upto off]).flatMap Frag.cells =
          Place.before s (.frag i off) := by
        rw [Place.before, hgetD, flatMap_append, flatMap_singleton,
          f.cells_upto (Nat.le_of_lt hoff), append_assoc]
      rw [append_cons] at hrow
      refine hrow.inserted (by rw [length_append, hlen]; rfl) hsize hbefore ?_
      rw [cells_frags s next i, drop_eq_getElem_cons hi, hget, flatMap_cons, ← hsplit,
        Place.before, hgetD, flatMap_cons]
      simp only [append_assoc]
    dsimp only at h
    rw [hfrag, hslot] at h
    by_cases hsame : i < maxSkbFrags - 2
    · rw [if_pos hsame] at h
      simp only [Option.some.injEq, Prod.mk.injEq] at h
      obtain ⟨rfl, rfl, rfl⟩ := h
      have hle := size_le_sizes (hholds.frag_eq hlen (by omega))
      have hdata : s₁.dataLen = sizes s₁.frags := hholds.sound.dataLen_eq
      have hslen := hholds.sound.len_eq
      have hbehind := f.size_behind off
      have hlast := htrim.set_here hhole (by omega) (f.behind off) s₁.len s₁.dataLen
        (show s₁.len + hole.size = s₁.len - (f.behind off).size + (f.behind off).size by omega)
        (show s₁.dataLen + hole.size = s₁.dataLen - (f.behind off).size + (f.behind off).size by
          omega)
      rw [hset] at hlast
      exact hfinal hlast
    · rw [if_neg hsame] at h
      cases next₁ with
      | nil => cases h
      | cons t rest =>
        simp only [Option.some.injEq, Prod.mk.injEq] at h
        obtain ⟨rfl, rfl, rfl⟩ := h
        have hlast := htrim.set_next hhole (by omega) (f.behind off)
          (t.len + (f.behind off).size) (t.dataLen + (f.behind off).size) (by omega) (by omega)
        rw [hset,
          show i + 2 - maxSkbFrags = (i + 2) % maxSkbFrags by rw [hseventeen]; omega] at hlast
        exact hfinal hlast

/-- `ss_skb_put`: the linear part grows. -/
theorem put_inserted (room : Nat) (fill : List UInt8) (hfill : fill.length = len) :
    Inserted s next (.linear s.linear.size) len
      { s with
        linear := ⟨s.linear.addr, s.linear.data ++ fill⟩
        room := room
        len := s.len + len } next ⟨0, .linear s.linear.size⟩ := by
  have hall : s.linear.cells.take s.linear.size = s.linear.cells :=
    take_of_length_le (Nat.le_of_eq s.linear.length_cells)
  have hcells : Frag.cells ⟨s.linear.addr, s.linear.data ++ fill⟩ =
      s.linear.cells ++ cellsAt (s.linear.addr + s.linear.size) fill := cellsAt_append _ _ _
  refine ⟨⟨cellsAt (s.linear.addr + s.linear.size) fill,
    s.frags.flatMap Frag.cells ++ cells next, ?_, ?_, ?_⟩, ?_, ?_⟩
  · rw [length_cellsAt, hfill]
  · rw [Place.before, hall, cells_cons, SkBuff.cells, append_assoc]
  · rw [Place.before, hall, cells_cons, SkBuff.cells, hcells]
    simp only [append_assoc]
  · show (Frag.cells ⟨s.linear.addr, s.linear.data ++ fill⟩).take s.linear.size = _
    rw [hcells, take_left' s.linear.length_cells, Place.before, hall]
  · refine forall_mem_cons.mpr ⟨⟨hs.frags_le, hs.dataLen_eq, ?_⟩, hnext⟩
    show s.len + len = (s.linear.data ++ fill).length + s.dataLen
    rw [hs.len_eq, length_append, hfill, Frag.size]
    omega

end add

/-- What `locate` finds is a place of the buffer. -/
def Spot.Valid (s : SkBuff) : Spot → Prop
  | .linear off => off < s.linear.size
  | .front => True
  | .inside i off => ∃ f, s.frags[i]? = some f ∧ off < f.size
  | .after i => i < s.frags.length

lemma locate_valid (hs : Sound s) (h : locate s pspt = some sp) : sp.Valid s := by
  rw [locate, hs.headlen_eq] at h
  split_ifs at h with hlin hfront
  · obtain rfl := Option.some.inj h
    show pspt - s.linear.addr < s.linear.size
    omega
  · obtain rfl := Option.some.inj h
    trivial
  · cases hfind : s.frags.findIdx? fun f => decide (f.Has pspt) with
    | some i =>
      rw [hfind] at h
      obtain rfl := Option.some.inj h
      obtain ⟨hi, hhas, -⟩ := findIdx?_eq_some_iff_getElem.mp hfind
      have hhas := of_decide_eq_true hhas
      refine ⟨s.frags[i], getElem?_eq_getElem hi, ?_⟩
      rw [getD_eq_getElem?_getD, getElem?_eq_getElem hi, Option.getD_some]
      obtain ⟨hle, hlt⟩ := hhas
      omega
    | none =>
      rw [hfind] at h
      obtain ⟨i, hlast, rfl⟩ := Option.map_eq_some_iff.mp h
      obtain ⟨hi, -⟩ := findIdx?_eq_some_iff_getElem.mp hlast
      rw [length_reverse] at hi
      show s.frags.length - 1 - i < s.frags.length
      omega

/-- The slot for new data is not counted: the data goes into the middle of the last fragment,
and only one more fits. -/
def Lost (s : SkBuff) : Spot → Prop
  | .inside i off => off ≠ 0 ∧ s.frags.length + 1 = maxSkbFrags ∧ i + 1 = s.frags.length
  | _ => False

lemma getRoom_inserted (hs : Sound s) (hnext : ∀ u ∈ next, Sound u)
    (hsp : locate s pspt = some sp) (hlost : ¬ Lost s sp)
    (h : ssSkbGetRoom env s next pspt len = some (s', next', it)) :
    Inserted s next (sp.place s) len s' next' it := by
  have hvalid := locate_valid hs hsp
  rw [ssSkbGetRoom, hsp] at h
  by_cases hpage : pageSize < len
  · rw [if_pos hpage] at h
    cases h
  rw [if_neg hpage] at h
  cases sp with
  | linear off => exact splitLinearAdd_inserted hs hnext hvalid h
  | front =>
    have hall : s.linear.cells.take s.linear.size = s.linear.cells :=
      take_of_length_le (Nat.le_of_eq s.linear.length_cells)
    dsimp only at h
    by_cases hroom : len ≤ s.tailroomLocked
    · rw [if_pos hroom] at h
      simp only [Option.some.injEq, Prod.mk.injEq] at h
      obtain ⟨rfl, rfl, rfl⟩ := h
      exact put_inserted hs hnext _ _ (by rw [length_map, length_range])
    · rw [if_neg hroom] at h
      refine appended_inserted hs hnext (Nat.zero_le _) ?_ h
      rw [Spot.place, Place.before, hall, take_zero, flatMap_nil, append_nil]
  | inside i off =>
    obtain ⟨f, hf, hoff⟩ := hvalid
    exact splitPgfragAdd_inserted hs hnext hf hoff
      (fun hne hslot => hlost ⟨hne, hslot.1, hslot.2.1⟩) h
  | after i =>
    have hi : i < s.frags.length := hvalid
    refine appended_inserted hs hnext hi ?_ h
    have hget : s.frags.getD i hole = s.frags[i] := by
      rw [getD_eq_getElem?_getD, getElem?_eq_getElem hi, Option.getD_some]
    rw [Spot.place, Place.before, hget,
      take_of_length_le (Nat.le_of_eq (Frag.length_cells _)),
      take_succ_eq_append_getElem hi, flatMap_append, flatMap_singleton,
      append_assoc]

section memory
variable (hpage : env.page = some page) (hnskb : env.nskb = some mem)
include hnskb

lemma spillTo_some (next : List SkBuff) (excess : Nat) :
    ∃ r, spillTo env next excess = some r := by
  have halloc : ssSkbAlloc env excess =
      some ⟨⟨mem.1, []⟩, mem.2, false, List.replicate excess hole, 0, 0⟩ := by
    rw [ssSkbAlloc, hnskb]
    rfl
  cases next with
  | nil => exact ⟨_, by rw [spillTo, halloc, Option.map_some]⟩
  | cons t rest =>
    rw [spillTo, halloc]
    split
    · exact ⟨_, rfl⟩
    · exact ⟨_, rfl⟩

lemma extendPgfrags_some (s : SkBuff) (next : List SkBuff) (i n : Nat) :
    ∃ s' next', extendPgfrags env s next i n = some (s', next') ∧
      (maxSkbFrags < s.frags.length + n → next' ≠ []) := by
  rw [extendPgfrags]
  by_cases hfit : s.frags.length + n ≤ maxSkbFrags
  · rw [if_pos hfit]
    exact ⟨_, _, rfl, fun h => absurd h (Nat.not_lt.mpr hfit)⟩
  · rw [if_neg hfit]
    obtain ⟨⟨t, rest⟩, hspill⟩ := spillTo_some hnskb next (s.frags.length + n - maxSkbFrags)
    dsimp only
    rw [hspill, Option.bind_some]
    dsimp only
    split
    · exact ⟨_, _, rfl, fun _ => cons_ne_nil _ _⟩
    · exact ⟨_, _, rfl, fun _ => cons_ne_nil _ _⟩

include hpage

lemma newPgfrag_some (s : SkBuff) (next : List SkBuff) (size : Nat) (hn : 0 < n)
    (hi : i ≤ s.frags.length) :
    ∃ s' next', newPgfrag env s next size i n = some (s', next') ∧
      (maxSkbFrags < s.frags.length + n → next' ≠ []) := by
  obtain ⟨s₁, next₁, hext, hne⟩ := extendPgfrags_some hnskb s next i n
  rw [newPgfrag, hpage, Option.bind_some, hext, Option.bind_some]
  dsimp only
  by_cases hlast : i = maxSkbFrags
  · rw [if_pos hlast]
    obtain ⟨t, rest, rfl⟩ := exists_cons_of_ne_nil (hne (by omega))
    exact ⟨_, _, rfl, fun _ => cons_ne_nil _ _⟩
  · rw [if_neg hlast]
    exact ⟨_, _, rfl, hne⟩

lemma splitPgfragAdd_some (len : Nat) (hi : i < s.frags.length) :
    ∃ r, splitPgfragAdd env s next i off len = some r := by
  rw [splitPgfragAdd]
  by_cases hzero : off = 0
  · rw [if_pos hzero]
    obtain ⟨s₁, next₁, hnew, -⟩ := newPgfrag_some hpage hnskb s next len (n := 1)
      (by decide) (Nat.le_of_lt hi)
    rw [hnew]
    exact ⟨_, rfl⟩
  · rw [if_neg hzero]
    obtain ⟨s₁, next₁, hnew, hne⟩ := newPgfrag_some hpage hnskb s next len (n := 2)
      (by decide) (show i + 1 ≤ s.frags.length from hi)
    rw [hnew, Option.bind_some]
    dsimp only
    by_cases hsame : i < maxSkbFrags - 2
    · rw [if_pos hsame]
      exact ⟨_, rfl⟩
    · rw [if_neg hsame]
      obtain ⟨t, rest, rfl⟩ := exists_cons_of_ne_nil (hne (by omega))
      exact ⟨_, rfl⟩

lemma appended_some (len : Nat) (hs : Sound s) (hnext : ∀ u ∈ next, Sound u)
    (hi : i ≤ s.frags.length) :
    ∃ r, ((newPgfrag env s next len i 1).bind fun (skb, next) =>
      (itNextData skb next i).map fun it => (skb, next, it)) = some r := by
  obtain ⟨s₁, next₁, hnew, -⟩ := newPgfrag_some hpage hnskb s next len (n := 1)
    (by decide) hi
  obtain ⟨new, -, hholds⟩ := newPgfrag_one hs hnext hi hnew
  have hit := hholds.itNextData_eq (i := i)
    (by rw [length_append, length_take, length_cons]; omega)
    (Nat.le_trans hi hs.frags_le)
  rw [hnew, Option.bind_some]
  dsimp only
  rw [hit]
  exact ⟨_, rfl⟩

lemma getRoom_some (hs : Sound s) (hnext : ∀ u ∈ next, Sound u) (hsp : locate s pspt = some sp)
    (hlen : len ≤ pageSize) : ∃ r, ssSkbGetRoom env s next pspt len = some r := by
  have hvalid := locate_valid hs hsp
  rw [ssSkbGetRoom, hsp, if_neg (Nat.not_lt.mpr hlen)]
  cases sp with
  | linear off =>
    obtain ⟨s₁, next₁, hnew, -⟩ := newPgfrag_some hpage hnskb s next len (n := 2)
      (by decide) (Nat.zero_le _)
    dsimp only
    rw [splitLinearAdd, hnew]
    exact ⟨_, rfl⟩
  | front =>
    dsimp only
    split
    · exact ⟨_, rfl⟩
    · exact appended_some hpage hnskb len hs hnext (Nat.zero_le _)
  | inside i off =>
    obtain ⟨f, hf, -⟩ := hvalid
    exact splitPgfragAdd_some hpage hnskb len (List.getElem?_eq_some_iff.mp hf).1
  | after i => exact appended_some hpage hnskb len hs hnext hvalid

end memory

lemma lost_not_sound (hs : Sound s) (hlost : Lost s (.inside i off)) (hlen : 0 < len)
    (hf : s.frags[i]? = some f) (hoff : off < f.size)
    (h : splitPgfragAdd env s next i off len = some (s', next', it)) : ¬ Sound s' := by
  obtain ⟨hzero, hcount, hi⟩ := hlost
  have hseventeen : maxSkbFrags = 17 := rfl
  rw [splitPgfragAdd, if_neg hzero] at h
  obtain ⟨⟨s₁, next₁⟩, hnew, h⟩ := Option.bind_eq_some_iff.mp h
  obtain ⟨page, -, hnew⟩ := Option.bind_eq_some_iff.mp hnew
  obtain ⟨⟨s₂, next₂⟩, hext, hnew⟩ := Option.bind_eq_some_iff.mp hnew
  rw [extendPgfrags, if_neg (by omega)] at hext
  obtain ⟨⟨t, rest⟩, -, hext⟩ := Option.bind_eq_some_iff.mp hext
  dsimp only at hext hnew h
  rw [if_pos (by omega)] at hext
  obtain ⟨rfl, rfl⟩ := Prod.mk.inj (Option.some.inj hext)
  rw [if_neg (by omega)] at hnew
  obtain ⟨rfl, rfl⟩ := Prod.mk.inj (Option.some.inj hnew)
  have hset : ∀ x, s.frags.set (i + 1) x = s.frags := fun x =>
    set_eq_of_length_le (Nat.le_of_eq hi.symm)
  have hget : (s.frags.set (i + 1) ⟨page, (List.range len).map env.fill⟩).getD i hole = f := by
    rw [hset, getD_eq_getElem?_getD, hf, Option.getD_some]
  rw [if_neg (by omega)] at h
  obtain ⟨rfl, -⟩ := Prod.mk.inj (Option.some.inj h)
  intro hsound
  have hdata : s.dataLen + len - (f.behind off).size = sizes (s.frags.set i (f.upto off)) := by
    have hdata := hsound.dataLen_eq
    change s.dataLen + len - (Frag.behind (List.getD (s.frags.set (i + 1) _) i hole) off).size =
      sizes ((s.frags.set (i + 1) _).set i (Frag.upto
        (List.getD (s.frags.set (i + 1) _) i hole) off))
      at hdata
    rwa [hget, hset] at hdata
  have hsizes := sizes_set hf (f.upto off)
  have hold : s.dataLen = sizes s.frags := hs.dataLen_eq
  rw [f.size_behind] at hdata
  rw [f.size_upto (Nat.le_of_lt hoff)] at hsizes
  have hle := size_le_sizes hf
  omega

lemma locate_some (hs : Sound s) (hpl : pl.Valid s) : ∃ sp, locate s (pl.addr s) = some sp := by
  rw [locate, hs.headlen_eq]
  split_ifs with hlin hfront
  · exact ⟨_, rfl⟩
  · exact ⟨_, rfl⟩
  · cases pl with
    | linear off =>
      have hoff : off ≤ s.linear.size := hpl
      have hpos : (Place.linear off).addr s = s.linear.addr + off := rfl
      exact absurd (Or.inl (by omega)) hfront
    | frag i off =>
      obtain ⟨f, hf, hoff⟩ := hpl
      have hpos : (Place.frag i off).addr s = f.addr + off := by
        rw [Place.addr, getD_eq_getElem?_getD, hf, Option.getD_some]
      have hmem := mem_of_getElem? hf
      cases hfind : s.frags.findIdx? fun f => decide (f.Has ((Place.frag i off).addr s)) with
      | some j => exact ⟨_, rfl⟩
      | none =>
        have hnot := of_decide_eq_false (findIdx?_eq_none_iff.mp hfind f hmem)
        have hend : off = f.size := by
          refine Nat.le_antisymm hoff (Nat.le_of_not_lt fun hlt => hnot ?_)
          rw [hpos]
          exact ⟨Nat.le_add_right _ _, Nat.add_lt_add_left hlt _⟩
        have hsome : (s.frags.reverse.findIdx? fun f =>
            decide ((Place.frag i off).addr s = f.addr + f.size)).isSome := by
          rw [findIdx?_isSome, any_eq_true]
          exact ⟨f, mem_reverse.mpr hmem, decide_eq_true (by rw [hpos, hend])⟩
        obtain ⟨j, hj⟩ := Option.isSome_iff_exists.mp hsome
        exact ⟨_, by rw [hj]; rfl⟩

lemma Inserted.of_before (h : Inserted s next pl len s' next' it)
    (hpl : pl.before s = pl'.before s) : Inserted s next pl' len s' next' it := by
  obtain ⟨hdata, hpoints, hsound⟩ := h
  rw [hpl] at hdata hpoints
  exact ⟨hdata, hpoints, hsound⟩

/-- Data of at most a page is inserted at a place if and only if the address of the place is not
found at an earlier one, and the place is not in the last of `MAX_SKB_FRAGS - 1` fragments. -/
theorem getRoom_inserted_iff {s : SkBuff} {next : List SkBuff} {pl : Place} {len : Nat}
    (hs : ∀ u ∈ s :: next, Sound u) (hpl : pl.Valid s) (hlen : 0 < len) :
    (∀ env s' next' it, ssSkbGetRoom env s next (pl.addr s) len = some (s', next', it) →
      Inserted s next pl len s' next' it) ↔
    (len ≤ pageSize → ∀ sp, locate s (pl.addr s) = some sp →
      (sp.place s).before s = pl.before s ∧ ¬ Lost s sp) := by
  have hhere := hs s mem_cons_self
  have hnext : ∀ u ∈ next, Sound u := fun u hu => hs u (mem_cons_of_mem s hu)
  constructor
  · intro h hpage sp hsp
    let env : SkbEnv := ⟨some 0, some (0, 0), fun _ => 0⟩
    have hpages : env.page = some 0 := rfl
    have hnskb : env.nskb = some (0, 0) := rfl
    obtain ⟨⟨s', next', it⟩, hroom⟩ := getRoom_some hpages hnskb hhere hnext hsp hpage
    have hinserted := h env s' next' it hroom
    have hlost : ¬ Lost s sp := by
      intro hlost
      cases sp with
      | inside i off =>
        obtain ⟨f, hf, hoff⟩ := locate_valid hhere hsp
        rw [ssSkbGetRoom, hsp, if_neg (Nat.not_lt.mpr hpage)] at hroom
        exact lost_not_sound hhere hlost hlen hf hoff hroom
          (hinserted.sound s' mem_cons_self)
      | linear | front | after => exact hlost
    exact ⟨(getRoom_inserted hhere hnext hsp hlost hroom).points.symm.trans hinserted.points,
      hlost⟩
  · intro h env s' next' it hroom
    have hpage : len ≤ pageSize := by
      by_contra hlong
      rw [ssSkbGetRoom, if_pos (Nat.lt_of_not_le hlong)] at hroom
      cases hroom
    obtain ⟨sp, hsp⟩ := locate_some hhere hpl
    obtain ⟨hbefore, hlost⟩ := h hpage sp hsp
    exact (getRoom_inserted hhere hnext hsp hlost hroom).of_before hbefore

/-- A byte goes between the two bytes of the only fragment. -/
theorem getRoom_inserted_middle :
    (ssSkbGetRoom ⟨some 5000, some (7000, 0), fun _ => 9⟩
      ⟨⟨100, [1]⟩, 0, true, [⟨200, [2, 3]⟩], 3, 2⟩ [] 201 1).isSome ∧
    ∀ env s' next' it,
      ssSkbGetRoom env ⟨⟨100, [1]⟩, 0, true, [⟨200, [2, 3]⟩], 3, 2⟩ [] 201 1 =
        some (s', next', it) →
      Inserted ⟨⟨100, [1]⟩, 0, true, [⟨200, [2, 3]⟩], 3, 2⟩ [] (.frag 0 1) 1 s' next' it := by
  have hsound : ∀ u ∈ [(⟨⟨100, [1]⟩, 0, true, [⟨200, [2, 3]⟩], 3, 2⟩ : SkBuff)], Sound u := by
    intro u hu
    obtain rfl := mem_singleton.mp hu
    exact ⟨by decide, rfl, rfl⟩
  have hvalid : (Place.frag 0 1).Valid ⟨⟨100, [1]⟩, 0, true, [⟨200, [2, 3]⟩], 3, 2⟩ :=
    ⟨_, rfl, by decide⟩
  refine ⟨rfl, (getRoom_inserted_iff hsound hvalid Nat.one_pos).mpr ?_⟩
  intro _ sp hsp
  obtain rfl : Spot.inside 0 1 = sp := Option.some.inj ((by decide : _ = _).trans hsp)
  exact ⟨rfl, fun hlost => absurd hlost.2.1 (by decide)⟩

/-- A byte for the middle of the last of sixteen fragments is not in the data: the rest of the
fragment goes to a new buffer, the byte to a slot that is not counted. -/
theorem inserted_byte_lost :
    ∃ s' next' it,
      ssSkbGetRoom ⟨some 5000, some (7000, 0), fun _ => 9⟩
        ⟨⟨100, []⟩, 0, true, (List.range 16).map fun i => ⟨1000 + 10 * i, [1, 2]⟩, 32, 32⟩ []
        1151 1 = some (s', next', it) ∧
      cells (s' :: next') =
        ((List.range 16).map fun i => (⟨1000 + 10 * i, [1, 2]⟩ : Frag)).flatMap Frag.cells ∧
      s'.len = 32 ∧ sizes s'.frags = 31 :=
  ⟨_, _, _, rfl, by decide, rfl, by decide⟩

end Tempesta.SsSkb
