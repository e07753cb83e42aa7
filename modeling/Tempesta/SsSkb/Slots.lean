import Tempesta.SsSkb.Fragment

/-!
Free slots among the fragments of a buffer. The slots that do not fit into a buffer are the first
ones of the next, so the fragments of the two are one row that is cut at `MAX_SKB_FRAGS`.
-/

namespace Tempesta.SsSkb

open List

/-- The counters of a buffer are those of its data. -/
structure Sound (s : SkBuff) : Prop where
  frags_le : s.frags.length ≤ maxSkbFrags
  dataLen_eq : s.dataLen = (s.frags.map Frag.size).sum
  len_eq : s.len = s.linear.size + s.dataLen

variable {s t s' : SkBuff} {n i k m excess gone size : Nat} {lin f lin' x : Frag}
  {row a b fs : List Frag} {next next' rest : List SkBuff} {env : SkbEnv}

lemma Sound.headlen_eq (h : Sound s) : s.headlen = s.linear.size := by
  rw [SkBuff.headlen, h.len_eq, Nat.add_sub_cancel]

lemma cellsAt_append (addr : Nat) (a b : List UInt8) :
    cellsAt addr (a ++ b) = cellsAt addr a ++ cellsAt (addr + a.length) b := by
  induction a generalizing addr with
  | nil => rfl
  | cons x a ih =>
    rw [cons_append, cellsAt, cellsAt, ih, length_cons, cons_append, Nat.add_assoc,
      Nat.add_comm 1]

lemma length_cellsAt (addr : Nat) (data : List UInt8) :
    (cellsAt addr data).length = data.length := by
  induction data generalizing addr with
  | nil => rfl
  | cons x data ih => rw [cellsAt, length_cons, length_cons, ih]

lemma Frag.length_cells (f : Frag) : f.cells.length = f.size := length_cellsAt _ _

lemma Frag.cells_split (f : Frag) (h : n ≤ f.size) :
    (f.upto n).cells ++ (f.behind n).cells = f.cells := by
  have hlen : (f.data.take n).length = n := by
    rw [length_take]
    exact Nat.min_eq_left h
  have happ := cellsAt_append f.addr (f.data.take n) (f.data.drop n)
  rw [take_append_drop, hlen] at happ
  exact happ.symm

lemma Frag.size_upto (f : Frag) (h : n ≤ f.size) : (f.upto n).size = n := by
  rw [Frag.upto, Frag.size, length_take]
  exact Nat.min_eq_left h

lemma Frag.size_behind (f : Frag) (n : Nat) : (f.behind n).size = f.size - n := by
  rw [Frag.behind, Frag.size, length_drop, Frag.size]

lemma Frag.cells_upto (f : Frag) (h : n ≤ f.size) : (f.upto n).cells = f.cells.take n := by
  rw [← f.cells_split h, take_left' (by rw [Frag.length_cells, f.size_upto h])]

lemma cells_cons : cells (s :: next) = s.cells ++ cells next :=
  flatMap_cons

/-- The fragments `row` behind the linear part `lin`, with the buffers that follow `next`: those
that are too many are in front of the fragments of the next buffer. -/
structure Holds (lin : Frag) (row : List Frag) (next : List SkBuff) (s : SkBuff)
    (next' : List SkBuff) : Prop where
  linear : s.linear = lin
  frags : s.frags = row.take maxSkbFrags
  sound : Sound s
  rest : row.length ≤ maxSkbFrags ∧ next' = next ∨
    maxSkbFrags < row.length ∧ ∃ t old rest, next' = t :: rest ∧ t.linear.data = [] ∧
      t.frags = row.drop maxSkbFrags ++ old ∧
      cells next = old.flatMap Frag.cells ++ cells rest
  sound_rest : ∀ u ∈ next', Sound u

lemma Holds.cells_eq (h : Holds lin row next s next') :
    cells (s :: next') = lin.cells ++ row.flatMap Frag.cells ++ cells next := by
  rw [cells_cons, SkBuff.cells, h.linear, h.frags]
  obtain ⟨hlen, rfl⟩ | ⟨-, t, old, rest, rfl, hlin, hfrags, hold⟩ := h.rest
  · rw [take_of_length_le hlen]
  · have hempty : t.linear.cells = [] := by rw [Frag.cells, hlin]; rfl
    have hrow : row.flatMap Frag.cells = (row.take maxSkbFrags).flatMap Frag.cells ++
        (row.drop maxSkbFrags).flatMap Frag.cells := by
      rw [← flatMap_append, take_append_drop]
    rw [cells_cons, SkBuff.cells, hempty, hfrags, hold, hrow, flatMap_append, nil_append]
    simp only [append_assoc]

def sizes (fs : List Frag) : Nat := (fs.map Frag.size).sum

lemma sizes_append (a b : List Frag) : sizes (a ++ b) = sizes a + sizes b := by
  rw [sizes, map_append, sum_append, sizes, sizes]

lemma sizes_cons : sizes (f :: fs) = f.size + sizes fs := by
  rw [sizes, map_cons, sum_cons, sizes]

lemma sizes_holes (n : Nat) : sizes (List.replicate n hole) = 0 := by
  rw [sizes, map_replicate, sum_replicate]
  exact Nat.mul_zero n

def withHoles (fs : List Frag) (i n : Nat) : List Frag :=
  fs.take i ++ List.replicate n hole ++ fs.drop i

lemma sizes_withHoles (fs : List Frag) (i n : Nat) : sizes (withHoles fs i n) = sizes fs := by
  rw [withHoles, sizes_append, sizes_append, sizes_holes, Nat.add_zero, ← sizes_append,
    take_append_drop]

lemma length_withHoles (fs : List Frag) (hi : i ≤ fs.length) :
    (withHoles fs i n).length = fs.length + n := by
  rw [withHoles, length_append, length_append, length_take, length_replicate,
    length_drop]
  omega

lemma take_append_take (h : min (k - a.length) m = min (k - a.length) b.length) :
    (a ++ b).take k = (a ++ b.take m).take k := by
  rw [take_append, take_append, take_take, h, ← take_eq_take_min]

/-- Where a row with free slots is cut: the fragments that are kept and those that are moved. -/
theorem withHoles_take (fs : List Frag) (hi : i ≤ fs.length) :
    (withHoles fs i n).take maxSkbFrags =
      (fs.take i ++ List.replicate n hole ++
        (fs.drop i).take (fs.length - i - (fs.length + n - maxSkbFrags))).take maxSkbFrags := by
  refine take_append_take ?_
  rw [length_append, length_take, length_replicate, Nat.min_eq_left hi,
    length_drop]
  omega

lemma withHoles_drop (fs : List Frag) (hi : i ≤ fs.length) (hmax : fs.length ≤ maxSkbFrags)
    (hn : maxSkbFrags < fs.length + n) :
    (withHoles fs i n).drop maxSkbFrags =
      List.replicate (fs.length + n - maxSkbFrags -
          min (fs.length + n - maxSkbFrags) (fs.length - i)) hole ++
        fs.drop (fs.length - min (fs.length + n - maxSkbFrags) (fs.length - i)) := by
  have hlen : (fs.take i ++ List.replicate n hole).length = i + n := by
    rw [length_append, length_take, length_replicate, Nat.min_eq_left hi]
  have htake : (fs.take i).length = i := by rw [length_take, Nat.min_eq_left hi]
  have hempty : (fs.take i).drop maxSkbFrags = [] := drop_eq_nil_iff.mpr (by omega)
  have hholes : n - (maxSkbFrags - i) = fs.length + n - maxSkbFrags -
      min (fs.length + n - maxSkbFrags) (fs.length - i) := by omega
  have hmoved : i + (maxSkbFrags - (i + n)) =
      fs.length - min (fs.length + n - maxSkbFrags) (fs.length - i) := by omega
  rw [withHoles, drop_append, drop_append, hlen, htake, hempty, nil_append,
    drop_replicate, drop_drop, hholes, hmoved]

lemma spillTo_spec (hnext : ∀ u ∈ next, Sound u) (hexcess : excess ≤ maxSkbFrags)
    (h : spillTo env next excess = some (t, rest)) :
    Sound t ∧ (∀ u ∈ rest, Sound u) ∧ t.linear.data = [] ∧
      ∃ old, t.frags = List.replicate excess hole ++ old ∧
        cells next = old.flatMap Frag.cells ++ cells rest := by
  have hfresh : ∀ {t rest}, (ssSkbAlloc env excess).map (fun nskb => (nskb, next)) =
      some (t, rest) → Sound t ∧ (∀ u ∈ rest, Sound u) ∧ t.linear.data = [] ∧
      ∃ old, t.frags = List.replicate excess hole ++ old ∧
        cells next = old.flatMap Frag.cells ++ cells rest := by
    intro t rest hsome
    obtain ⟨nskb, halloc, heq⟩ := Option.map_eq_some_iff.mp hsome
    obtain ⟨⟨addr, room⟩, -, rfl⟩ := Option.map_eq_some_iff.mp halloc
    obtain ⟨rfl, rfl⟩ := Prod.mk.inj heq
    refine ⟨⟨?_, (sizes_holes excess).symm, rfl⟩, hnext, rfl, [], (append_nil _).symm, rfl⟩
    rw [length_replicate]
    exact hexcess
  cases next with
  | nil => exact hfresh h
  | cons nskb next =>
    rw [spillTo] at h
    by_cases hfit : nskb.headlen = 0 ∧ nskb.frags.length ≤ maxSkbFrags - excess
    · rw [if_pos hfit] at h
      obtain ⟨rfl, rfl⟩ := Prod.mk.inj (Option.some.inj h)
      have hsound := hnext nskb mem_cons_self
      have hlin : nskb.linear.data = [] := by
        rw [hsound.headlen_eq] at hfit
        exact length_eq_zero_iff.mp hfit.1
      have hempty : nskb.linear.cells = [] := by rw [Frag.cells, hlin]; rfl
      refine ⟨⟨?_, ?_, hsound.len_eq⟩, fun u hu => hnext u (mem_cons_of_mem _ hu), hlin,
        nskb.frags, rfl, ?_⟩
      · rw [length_append, length_replicate]
        omega
      · rw [← sizes, sizes_append, sizes_holes, Nat.zero_add]
        exact hsound.dataLen_eq
      · rw [cells_cons, SkBuff.cells, hempty, nil_append]
    · rw [if_neg hfit] at h
      exact hfresh h

/-- The one case in which the slots are not there: two of them behind the last fragment, and the
first one is the last that fits. -/
def SlotLost (s : SkBuff) (i n : Nat) : Prop :=
  s.frags.length + 1 = maxSkbFrags ∧ i = s.frags.length ∧ n = 2

lemma extendPgfrags_holds (hs : Sound s) (hnext : ∀ u ∈ next, Sound u) (hi : i ≤ s.frags.length)
    (hn : n ≤ 2) (hlost : ¬ SlotLost s i n) (h : extendPgfrags env s next i n = some (s', next')) :
    Holds s.linear (withHoles s.frags i n) next s' next' := by
  have hseventeen : maxSkbFrags = 17 := rfl
  have hmax := hs.frags_le
  have hlen := length_withHoles s.frags hi (n := n)
  have hsum := sizes_withHoles s.frags i n
  rw [extendPgfrags] at h
  by_cases hfit : s.frags.length + n ≤ maxSkbFrags
  · rw [if_pos hfit] at h
    obtain ⟨rfl, rfl⟩ := Prod.mk.inj (Option.some.inj h)
    refine ⟨rfl, ?_, ⟨?_, ?_, hs.len_eq⟩, .inl ⟨by omega, rfl⟩, hnext⟩
    · exact (take_of_length_le (Nat.le_trans (Nat.le_of_eq hlen) hfit)).symm
    · exact Nat.le_trans (Nat.le_of_eq hlen) hfit
    · rw [hs.dataLen_eq]
      exact hsum.symm
  · rw [if_neg hfit] at h
    obtain ⟨⟨t, rest⟩, hspill, hrest⟩ := Option.bind_eq_some_iff.mp h
    obtain ⟨ht, hrests, hlin, old, hold, hcells⟩ :=
      spillTo_spec hnext (show _ ≤ maxSkbFrags by omega) hspill
    have hdrop := withHoles_drop s.frags hi hmax (n := n) (by omega)
    have htake := withHoles_take s.frags hi (n := n)
    dsimp only at hrest
    by_cases htail : s.frags.length - i = 0
    · rw [if_pos htail] at hrest
      obtain ⟨rfl, rfl⟩ := Prod.mk.inj (Option.some.inj hrest)
      have hfull : s.frags.length = maxSkbFrags := by
        by_contra hne
        exact hlost ⟨by omega, by omega, by omega⟩
      have hrow : withHoles s.frags i n = s.frags ++ List.replicate n hole := by
        rw [withHoles, take_of_length_le (by omega), drop_eq_nil_iff.mpr (by omega),
          append_nil]
      refine ⟨rfl, ?_, hs, .inr ⟨by omega, t, old, rest, rfl, hlin, ?_, hcells⟩, ?_⟩
      · rw [hrow, take_left' hfull]
      · rw [hrow, drop_left' hfull, hold, hfull, Nat.add_sub_cancel_left]
      · exact forall_mem_cons.mpr ⟨ht, hrests⟩
    · rw [if_neg htail] at hrest
      obtain ⟨rfl, rfl⟩ := Prod.mk.inj (Option.some.inj hrest)
      obtain ⟨excess, hexcess⟩ : ∃ e, e = s.frags.length + n - maxSkbFrags := ⟨_, rfl⟩
      rw [← hexcess] at hspill hold hdrop htake ⊢
      obtain ⟨k, hk⟩ : ∃ k, k = min excess (s.frags.length - i) := ⟨_, rfl⟩
      rw [← hk] at hdrop ⊢
      obtain ⟨moved, hmoved⟩ : ∃ m, m = s.frags.drop (s.frags.length - k) := ⟨_, rfl⟩
      rw [← hmoved] at hdrop ⊢
      have hlenMoved : moved.length = k := by
        rw [hmoved, length_drop]
        omega
      have hsplit : sizes s.frags = sizes ((withHoles s.frags i n).take maxSkbFrags) +
          sizes moved := by
        have h := sizes_append ((withHoles s.frags i n).take maxSkbFrags)
          ((withHoles s.frags i n).drop maxSkbFrags)
        rw [take_append_drop, hsum, hdrop, sizes_append, sizes_holes, Nat.zero_add] at h
        exact h
      have hnskb : t.frags.take (excess - moved.length) ++ moved ++ t.frags.drop excess =
          List.replicate (excess - k) hole ++ moved ++ old := by
        have hle : excess - k ≤ (List.replicate excess hole).length := by
          rw [length_replicate]
          omega
        have hmin : min (excess - k) excess = excess - k := by omega
        rw [hold, hlenMoved, take_append_of_le_length hle, take_replicate, hmin,
          drop_left' length_replicate]
      have hdata : s.dataLen = sizes s.frags := hs.dataLen_eq
      have hdata' : t.dataLen = sizes old := by
        have h : t.dataLen = sizes t.frags := ht.dataLen_eq
        rw [hold, sizes_append, sizes_holes, Nat.zero_add] at h
        exact h
      refine ⟨rfl, htake.symm, ⟨?_, ?_, ?_⟩, .inr
        ⟨by omega, _, old, rest, rfl, hlin, ?_, hcells⟩, ?_⟩
      · exact Nat.le_trans (Nat.le_of_eq (length_take ..)) (Nat.min_le_left _ _)
      · show s.dataLen - sizes moved = sizes ((s.frags.take i ++ List.replicate n hole ++
          (s.frags.drop i).take (s.frags.length - i - excess)).take maxSkbFrags)
        rw [← htake]
        omega
      · show s.len - sizes moved = s.linear.size + (s.dataLen - sizes moved)
        rw [hs.len_eq]
        omega
      · rw [hdrop]
        exact hnskb
      · refine forall_mem_cons.mpr ⟨⟨?_, ?_, ?_⟩, hrests⟩
        · have hle := ht.frags_le
          show (t.frags.take (excess - moved.length) ++ moved ++ t.frags.drop excess).length ≤ _
          rw [hnskb, length_append, length_append, length_replicate, hlenMoved]
          rw [hold, length_append, length_replicate] at hle
          omega
        · show t.dataLen + sizes moved =
            sizes (t.frags.take (excess - moved.length) ++ moved ++ t.frags.drop excess)
          rw [hnskb, sizes_append, sizes_append, sizes_holes]
          omega
        · show t.len + sizes moved = t.linear.size + (t.dataLen + sizes moved)
          rw [ht.len_eq]
          omega

lemma sizes_set (hf : fs[i]? = some f) (x : Frag) :
    sizes (fs.set i x) + f.size = sizes fs + x.size := by
  obtain ⟨hi, rfl⟩ := List.getElem?_eq_some_iff.mp hf
  have hsum := congrArg sizes (take_append_drop i fs)
  rw [drop_eq_getElem_cons hi, sizes_append, sizes_cons] at hsum
  rw [set_eq_take_append_cons_drop, if_pos hi, sizes_append, sizes_cons]
  omega

lemma size_le_sizes (hf : fs[i]? = some f) : f.size ≤ sizes fs := by
  have h := sizes_set hf hole
  have hzero : hole.size = 0 := rfl
  omega

lemma Holds.set_here (h : Holds lin row next s next') (hf : row[i]? = some f)
    (hi : i < maxSkbFrags) (x : Frag) (len dataLen : Nat) (hlen : len + f.size = s.len + x.size)
    (hdata : dataLen + f.size = s.dataLen + x.size) :
    Holds lin (row.set i x) next
      { s.fillPageDesc i x with len := len, dataLen := dataLen } next' := by
  have hget : s.frags[i]? = some f := by
    rw [h.frags, getElem?_take_of_lt hi, hf]
  have hsum := sizes_set hget x
  have hdataLen : s.dataLen = sizes s.frags := h.sound.dataLen_eq
  refine ⟨h.linear, ?_, ⟨?_, ?_, ?_⟩, ?_, h.sound_rest⟩
  · show s.frags.set i x = _
    rw [h.frags, take_set]
  · show (s.frags.set i x).length ≤ _
    rw [length_set]
    exact h.sound.frags_le
  · show dataLen = sizes (s.frags.set i x)
    omega
  · show len = s.linear.size + dataLen
    rw [h.sound.len_eq] at hlen
    omega
  · rw [length_set, drop_set_of_lt hi]
    exact h.rest

lemma Holds.set_next (h : Holds lin row next s (t :: rest)) (hf : row[i]? = some f)
    (hi : maxSkbFrags ≤ i) (x : Frag) (len dataLen : Nat) (hlen : len + f.size = t.len + x.size)
    (hdata : dataLen + f.size = t.dataLen + x.size) :
    Holds lin (row.set i x) next s
      ({ t.fillPageDesc (i - maxSkbFrags) x with len := len, dataLen := dataLen } :: rest) := by
  obtain ⟨hrow, -⟩ := List.getElem?_eq_some_iff.mp hf
  obtain ⟨hle, -⟩ | ⟨hlt, t', old, rest', heq, hlin, hfrags, hold⟩ := h.rest
  · omega
  obtain ⟨rfl, rfl⟩ := List.cons.inj heq
  have ht := h.sound_rest t mem_cons_self
  have hdrop : i - maxSkbFrags < (row.drop maxSkbFrags).length := by
    rw [length_drop]
    omega
  have hget : t.frags[i - maxSkbFrags]? = some f := by
    rw [hfrags, getElem?_append_left hdrop, getElem?_drop, ← hf]
    congr 1
    omega
  have hsum := sizes_set hget x
  have hdataLen : t.dataLen = sizes t.frags := ht.dataLen_eq
  have hset : (row.set i x).drop maxSkbFrags = (row.drop maxSkbFrags).set (i - maxSkbFrags) x := by
    rw [drop_set, if_neg (by omega)]
  refine ⟨h.linear, ?_, h.sound, .inr ⟨?_, _, old, rest, rfl, hlin, ?_, hold⟩, ?_⟩
  · rw [h.frags, take_set_of_le hi]
  · rw [length_set]
    exact hlt
  · show t.frags.set (i - maxSkbFrags) x = _
    rw [hset, hfrags, set_append_left _ _ hdrop]
  · refine forall_mem_cons.mpr ⟨⟨?_, ?_, ?_⟩, fun u hu =>
      h.sound_rest u (mem_cons_of_mem _ hu)⟩
    · show (t.frags.set (i - maxSkbFrags) x).length ≤ _
      rw [length_set]
      exact ht.frags_le
    · show dataLen = sizes (t.frags.set (i - maxSkbFrags) x)
      omega
    · show len = t.linear.size + dataLen
      rw [ht.len_eq] at hlen
      omega

/-- A free slot takes the end of the linear part, and some bytes before it are gone. -/
theorem Holds.set_linear (h : Holds lin row next s next') (hf : row[i]? = some hole)
    (hi : i < maxSkbFrags) (hsize : lin'.size + gone + x.size = lin.size) (room : Nat)
    (tailLock : Bool) :
    Holds lin' (row.set i x) next
      ⟨lin', room, tailLock, s.frags.set i x, s.len - gone, s.dataLen + x.size⟩ next' := by
  have hzero : hole.size = 0 := rfl
  have hset := h.set_here hf hi x (s.len + x.size) (s.dataLen + x.size)
    (by omega) (by omega)
  refine ⟨rfl, hset.frags, ⟨hset.sound.frags_le, hset.sound.dataLen_eq, ?_⟩, hset.rest,
    hset.sound_rest⟩
  show s.len - gone = lin'.size + (s.dataLen + x.size)
  rw [h.sound.len_eq, h.linear]
  omega

def newFrag (env : SkbEnv) (page size : Nat) : Frag := ⟨page, (List.range size).map env.fill⟩

lemma size_newFrag (env : SkbEnv) (page size : Nat) : (newFrag env page size).size = size := by
  rw [newFrag, Frag.size, length_map, length_range]

lemma withHoles_getElem? (hi : i ≤ fs.length) (hk : i ≤ k) (hkn : k < i + n) :
    (withHoles fs i n)[k]? = some hole := by
  have hlen : (fs.take i).length = i := by rw [length_take, Nat.min_eq_left hi]
  rw [withHoles, append_assoc, getElem?_append_right (by omega), hlen,
    getElem?_append_left (by rw [length_replicate]; omega),
    getElem?_replicate_of_lt (by omega)]

lemma newPgfrag_holds (hs : Sound s) (hnext : ∀ u ∈ next, Sound u) (hi : i ≤ s.frags.length)
    (hpos : 0 < n) (hn : n ≤ 2) (hlost : ¬ SlotLost s i n)
    (h : newPgfrag env s next size i n = some (s', next')) :
    ∃ page, env.page = some page ∧
      Holds s.linear ((withHoles s.frags i n).set i (newFrag env page size)) next s' next' := by
  obtain ⟨page, hpage, h⟩ := Option.bind_eq_some_iff.mp h
  obtain ⟨⟨s₁, next₁⟩, hext, h⟩ := Option.bind_eq_some_iff.mp h
  have hholds := extendPgfrags_holds hs hnext hi hn hlost hext
  have hhole := withHoles_getElem? hi (Nat.le_refl i) (show i < i + n by omega)
  have hsize := size_newFrag env page size
  have hzero : hole.size = 0 := rfl
  have hmax := hs.frags_le
  refine ⟨page, hpage, ?_⟩
  dsimp only at h
  by_cases hlast : i = maxSkbFrags
  · rw [if_pos hlast] at h
    cases next₁ with
    | nil => cases h
    | cons t rest =>
      obtain ⟨rfl, rfl⟩ := Prod.mk.inj (Option.some.inj h)
      have hset := hholds.set_next hhole (Nat.le_of_eq hlast.symm) (newFrag env page size)
        (t.len + size) (t.dataLen + size) (by omega) (by omega)
      rw [show i - maxSkbFrags = 0 by omega] at hset
      exact hset
  · rw [if_neg hlast] at h
    obtain ⟨rfl, rfl⟩ := Prod.mk.inj (Option.some.inj h)
    exact hholds.set_here hhole (by omega) (newFrag env page size) (s₁.len + size)
      (s₁.dataLen + size) (by omega) (by omega)

end Tempesta.SsSkb
