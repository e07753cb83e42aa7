import Tempesta.Lib.Xor

/-!
The hash scheduler. The connections of a group are kept ordered by their hashes, and a
message goes to the one a binary search for the complement of the message's hash ends at.
The comment in the source promises the highest weight `msg_hash ^ srv_conn_hash`.
-/

namespace Tempesta.Sched

open List XorLib

variable {κ : Type}

structure TfwHashConn (κ : Type) where
  hash : UInt64
  conn : κ
  deriving DecidableEq, Repr

def hashAt (cl : List (TfwHashConn κ)) (idx : Nat) : UInt64 :=
  (cl.map TfwHashConn.hash).getD idx 0

/-- The loop of `__bsearch` -/
def bsearchLoop (hash : UInt64) (cl : List (TfwHashConn κ)) : Nat → Nat → Nat → Nat
  | 0, start, _ => start
  | fuel + 1, start, stop =>
    if start < stop then
      let mid := start + (stop - start) / 2
      let midHash := hashAt cl mid
      if hash < midHash then bsearchLoop hash cl fuel start mid
      else if midHash < hash then bsearchLoop hash cl fuel (mid + 1) stop
      else mid
    else start

/-- `__bsearch`; every pass makes the range smaller. -/
def bsearch (hash : UInt64) (cl : List (TfwHashConn κ)) : Nat :=
  bsearchLoop hash cl cl.length 0 (cl.length - 1)

/-- `__add_conn`, or `-EEXIST` -/
def addConn (cl : List (TfwHashConn κ)) (conn : κ) (hash : UInt64) :
    Option (List (TfwHashConn κ)) :=
  let newHcon : TfwHashConn κ := ⟨hash, conn⟩
  if cl.isEmpty then some [newHcon]
  else
    let idx := bsearch hash cl
    if hashAt cl idx = hash then none
    else
      let idx := if hashAt cl idx < hash ∧ idx ≠ cl.length then idx + 1 else idx
      some (cl.insertIdx idx newHcon)

/-- A connection, `NULL`, or a read outside of the array -/
inductive Found (κ : Type) where
  | conn (c : κ)
  | null
  | outside
  deriving DecidableEq, Repr

def ulongMax : UInt64 := 0xFFFFFFFFFFFFFFFF

/-- The loop of `__find_best_conn` over the neighbours: `l` connections are left on the one
side (`l_idx` is `l - 1`), those from `rIdx` on on the other. -/
def scanNeighbours (suitable : κ → Bool) (bestHash : UInt64) (cl : List (TfwHashConn κ)) :
    Nat → Nat → Nat → Found κ
  | 0, _, _ => .null
  | fuel + 1, l, rIdx =>
    if 0 < l ∨ rIdx < cl.length then
      let lDiff := if 0 < l then bestHash - hashAt cl (l - 1) else ulongMax
      let rDiff := if rIdx < cl.length then hashAt cl rIdx - bestHash else ulongMax
      if lDiff ≤ rDiff then
        if l = 0 then .outside
        else
          match cl[l - 1]? with
          | none => .outside
          | some c =>
            if suitable c.conn then .conn c.conn
            else scanNeighbours suitable bestHash cl fuel (l - 1) rIdx
      else
        match cl[rIdx]? with
        | none => .outside
        | some c =>
          if suitable c.conn then .conn c.conn
          else scanNeighbours suitable bestHash cl fuel l (rIdx + 1)
    else .null

/-- `__find_best_conn` for the key `msg_hash` of a message; `suitable` is
`__is_conn_suitable` at that time. -/
def findBestConn (suitable : κ → Bool) (msgHash : UInt64) (cl : List (TfwHashConn κ)) :
    Found κ :=
  let bestHash := ulongMax ^^^ msgHash
  if cl.isEmpty then .null
  else
    let idx := bsearch bestHash cl
    match cl[idx]? with
    | none => .outside
    | some c =>
      if suitable c.conn then .conn c.conn
      else scanNeighbours suitable bestHash cl cl.length idx (idx + 1)

/-- The lists that `__add_conn` builds, each connection being added once. -/
inductive Built : List (TfwHashConn κ) → Prop
  | empty : Built []
  | add {cl cl' : List (TfwHashConn κ)} {conn : κ} {hash : UInt64} : Built cl →
      (∀ d ∈ cl, d.conn ≠ conn) → addConn cl conn hash = some cl' → Built cl'

def Sorted (cl : List (TfwHashConn κ)) : Prop :=
  cl.Pairwise fun c d => c.hash < d.hash

variable {cl : List (TfwHashConn κ)} {i j idx fuel start stop : Nat} {hash msgHash a b : UInt64}

lemma hashAt_eq (h : i < cl.length) : hashAt cl i = (cl.get ⟨i, h⟩).hash := by
  rw [hashAt, getD_eq_getElem _ _ (by rw [length_map]; exact h), getElem_map]
  rfl

lemma Sorted.hashAt_lt (h : Sorted cl) (hij : i < j) (hj : j < cl.length) :
    hashAt cl i < hashAt cl j := by
  rw [hashAt_eq hj, hashAt_eq (Nat.lt_trans hij hj)]
  exact pairwise_iff_getElem.mp h i j (Nat.lt_trans hij hj) hj hij

/-- Where a binary search ends: at the first hash that is not below, or at the last one. -/
structure Lands (hash : UInt64) (cl : List (TfwHashConn κ)) (idx : Nat) : Prop where
  inside : idx < cl.length
  below : ∀ i < idx, hashAt cl i < hash
  last : hashAt cl idx < hash → idx + 1 = cl.length

lemma lands_of_done (hin : idx < cl.length) (hlow : ∀ i < idx, hashAt cl i < hash)
    (hhigh : idx + 1 = cl.length ∨ hash < hashAt cl idx) : Lands hash cl idx := by
  refine ⟨hin, hlow, ?_⟩
  intro hlt
  obtain hlast | hgt := hhigh
  · exact hlast
  · exact absurd hlt (UInt64.not_lt.mpr (UInt64.le_of_lt hgt))

lemma bsearchLoop_lands (hs : Sorted cl) (hfuel : stop - start ≤ fuel) (hle : start ≤ stop)
    (hstop : stop < cl.length) (hlow : ∀ i < start, hashAt cl i < hash)
    (hhigh : stop + 1 = cl.length ∨ hash < hashAt cl stop) :
    Lands hash cl (bsearchLoop hash cl fuel start stop) := by
  induction fuel generalizing start stop with
  | zero =>
    obtain rfl : start = stop := by omega
    exact lands_of_done hstop hlow hhigh
  | succ fuel ih =>
    rw [bsearchLoop]
    by_cases hlt : start < stop
    · rw [if_pos hlt]
      have hmid : start + (stop - start) / 2 < stop := by omega
      have hstart : start ≤ start + (stop - start) / 2 := by omega
      generalize start + (stop - start) / 2 = mid at hmid hstart
      dsimp only
      by_cases hleft : hash < hashAt cl mid
      · rw [if_pos hleft]
        exact ih (by omega) hstart (by omega) hlow (.inr hleft)
      · rw [if_neg hleft]
        by_cases hright : hashAt cl mid < hash
        · rw [if_pos hright]
          apply ih (by omega) (by omega) hstop _ hhigh
          intro i hi
          by_cases heq : i = mid
          · exact heq ▸ hright
          · exact UInt64.lt_trans (hs.hashAt_lt (by omega) (by omega)) hright
        · rw [if_neg hright]
          refine ⟨by omega, ?_, fun h => absurd h hright⟩
          intro i hi
          exact UInt64.lt_of_lt_of_le (hs.hashAt_lt hi (by omega)) (UInt64.not_lt.mp hleft)
    · rw [if_neg hlt]
      obtain rfl : start = stop := by omega
      exact lands_of_done hstop hlow hhigh

lemma bsearch_lands (hash : UInt64) (hs : Sorted cl) (hne : cl ≠ []) :
    Lands hash cl (bsearch hash cl) := by
  have hpos := length_pos_iff.mpr hne
  apply bsearchLoop_lands hs
  · omega
  · omega
  · omega
  · intro i hi
    exact absurd hi (Nat.not_lt_zero i)
  · exact .inl (by omega)

variable {c : TfwHashConn κ}

lemma Sorted.insertIdx (hs : Sorted cl) (hidx : idx ≤ cl.length)
    (hlow : ∀ i < idx, hashAt cl i < c.hash)
    (hhigh : ∀ i, idx ≤ i → i < cl.length → c.hash < hashAt cl i) :
    Sorted (cl.insertIdx idx c) := by
  induction cl generalizing idx with
  | nil =>
    obtain rfl : idx = 0 := Nat.le_zero.mp hidx
    exact pairwise_singleton _ _
  | cons d cl ih =>
    obtain ⟨hd, hcl⟩ := pairwise_cons.mp hs
    cases idx with
    | zero =>
      refine pairwise_cons.mpr ⟨?_, hs⟩
      intro e he
      obtain ⟨i, hi, rfl⟩ := getElem_of_mem he
      have hgt := hhigh i (Nat.zero_le i) hi
      rwa [hashAt_eq hi] at hgt
    | succ idx =>
      rw [insertIdx_succ_cons]
      refine pairwise_cons.mpr ⟨?_, ?_⟩
      · intro e he
        obtain rfl | he := eq_or_mem_of_mem_insertIdx he
        · exact hlow 0 (Nat.succ_pos idx)
        · exact hd e he
      · apply ih hcl (Nat.le_of_succ_le_succ hidx)
        · intro i hi
          exact hlow (i + 1) (Nat.succ_lt_succ hi)
        · intro i hi hlen
          exact hhigh (i + 1) (Nat.succ_le_succ hi) (Nat.succ_lt_succ hlen)

variable {cl' : List (TfwHashConn κ)} {conn : κ}

lemma addConn_sorted (hs : Sorted cl) (h : addConn cl conn hash = some cl') : Sorted cl' := by
  cases cl with
  | nil =>
    obtain rfl := Option.some.inj h
    exact pairwise_singleton _ _
  | cons c cl =>
    have hland := bsearch_lands hash hs (cons_ne_nil c cl)
    rw [addConn, isEmpty_cons, if_neg Bool.false_ne_true] at h
    generalize bsearch hash (c :: cl) = idx at h hland
    dsimp only at h
    split at h
    next => cases h
    next hne =>
      obtain rfl := Option.some.inj h
      by_cases hlt : hashAt (c :: cl) idx < hash
      · rw [if_pos ⟨hlt, Nat.ne_of_lt hland.inside⟩]
        apply hs.insertIdx (Nat.le_of_eq (hland.last hlt))
        · intro i hi
          by_cases heq : i = idx
          · exact heq ▸ hlt
          · exact hland.below i (by omega)
        · intro i hi hlen
          have hlast := hland.last hlt
          omega
      · rw [if_neg (fun h => hlt h.1)]
        have hgt : hash < hashAt (c :: cl) idx :=
          UInt64.lt_of_le_of_ne (UInt64.not_lt.mp hlt) (Ne.symm hne)
        apply hs.insertIdx (Nat.le_of_lt hland.inside) hland.below
        intro i hi hlen
        by_cases heq : idx = i
        · exact heq ▸ hgt
        · exact UInt64.lt_trans hgt (hs.hashAt_lt (by omega) hlen)

lemma Built.sorted (h : Built cl) : Sorted cl := by
  induction h with
  | empty => exact List.Pairwise.nil
  | add _ _ hadd ih => exact addConn_sorted ih hadd

lemma addConn_perm (hs : Sorted cl) (h : addConn cl conn hash = some cl') :
    cl'.Perm (⟨hash, conn⟩ :: cl) := by
  cases cl with
  | nil =>
    obtain rfl := Option.some.inj h
    exact List.Perm.refl _
  | cons c cl =>
    have hland := bsearch_lands hash hs (cons_ne_nil c cl)
    rw [addConn, isEmpty_cons, if_neg Bool.false_ne_true] at h
    dsimp only at h
    split at h
    next => cases h
    next =>
      obtain rfl := Option.some.inj h
      apply perm_insertIdx
      have hin := hland.inside
      split <;> omega

lemma Built.nodup (h : Built cl) :
    (cl.map TfwHashConn.conn).Nodup := by
  induction h with
  | empty => exact nodup_nil
  | add hb hnew hadd ih =>
    refine ((addConn_perm hb.sorted hadd).map TfwHashConn.conn).nodup_iff.mpr ?_
    refine nodup_cons.mpr ⟨?_, ih⟩
    intro hmem
    obtain ⟨d, hd, heq⟩ := mem_map.mp hmem
    exact hnew d hd heq

/-- `c` has the first hash that is not below `hash`, or the largest one if all are. -/
structure Nearest (hash : UInt64) (cl : List (TfwHashConn κ)) (c : TfwHashConn κ) : Prop where
  mem : c ∈ cl
  first : ∀ d ∈ cl, d.hash < c.hash → d.hash < hash
  largest : c.hash < hash → ∀ d ∈ cl, d.hash ≤ c.hash

variable {d : TfwHashConn κ}

lemma Nearest.hash_le (hc : Nearest hash cl c) (hd : Nearest hash cl d) : d.hash ≤ c.hash := by
  apply UInt64.not_lt.mp
  intro hlt
  have hlow := hd.first c hc.mem hlt
  exact absurd hlt (UInt64.not_lt.mpr (hc.largest hlow d hd.mem))

lemma Sorted.eq_of_hash_eq (hs : Sorted cl) (hc : c ∈ cl) (hd : d ∈ cl) (h : c.hash = d.hash) :
    c = d := by
  obtain ⟨i, hi, rfl⟩ := getElem_of_mem hc
  obtain ⟨j, hj, rfl⟩ := getElem_of_mem hd
  obtain hlt | rfl | hgt := Nat.lt_trichotomy i j
  · have hij := pairwise_iff_getElem.mp hs i j hi hj hlt
    exact absurd (h ▸ hij) (UInt64.lt_irrefl _)
  · rfl
  · have hji := pairwise_iff_getElem.mp hs j i hj hi hgt
    exact absurd (h ▸ hji) (UInt64.lt_irrefl _)

lemma Nearest.unique (hs : Sorted cl) (hc : Nearest hash cl c) (hd : Nearest hash cl d) : c = d :=
  hs.eq_of_hash_eq hc.mem hd.mem (UInt64.le_antisymm (hd.hash_le hc) (hc.hash_le hd))

lemma Lands.nearest (hs : Sorted cl) (h : Lands hash cl idx) :
    Nearest hash cl (cl.get ⟨idx, h.inside⟩) := by
  refine ⟨get_mem _ _, ?_, ?_⟩
  · intro d hd hlt
    obtain ⟨i, hi, rfl⟩ := getElem_of_mem hd
    have hbelow : i < idx := by
      by_contra hge
      obtain heq | hgt := Nat.eq_or_lt_of_le (Nat.le_of_not_lt hge)
      · subst heq
        exact absurd hlt (UInt64.lt_irrefl _)
      · have hgt' := hs.hashAt_lt hgt hi
        rw [hashAt_eq hi, hashAt_eq h.inside] at hgt'
        exact absurd hlt (UInt64.not_lt.mpr (UInt64.le_of_lt hgt'))
    have hlow := h.below i hbelow
    rwa [hashAt_eq hi] at hlow
  · intro hlt d hd
    rw [← hashAt_eq h.inside] at hlt
    have hlast := h.last hlt
    obtain ⟨i, hi, rfl⟩ := getElem_of_mem hd
    obtain heq | hle := Nat.eq_or_lt_of_le (show i ≤ idx by omega)
    · subst heq
      exact UInt64.le_refl _
    · have hlt' := hs.hashAt_lt hle h.inside
      rw [hashAt_eq hi, hashAt_eq h.inside] at hlt'
      exact UInt64.le_of_lt hlt'

variable {suitable : κ → Bool}

lemma findBestConn_eq (hs : Sorted cl) (hall : ∀ c ∈ cl, suitable c.conn = true)
    (hc : Nearest (ulongMax ^^^ msgHash) cl c) :
    findBestConn suitable msgHash cl = .conn c.conn := by
  have hne : cl ≠ [] := ne_nil_of_mem hc.mem
  have hland := bsearch_lands (ulongMax ^^^ msgHash) hs hne
  have hfound : cl.get ⟨_, hland.inside⟩ = c := (hland.nearest hs).unique hs hc
  have hget : cl[bsearch (ulongMax ^^^ msgHash) cl]? = some c := by
    rw [getElem?_eq_getElem hland.inside]
    exact congrArg some hfound
  have hempty : cl.isEmpty = false := by rwa [isEmpty_eq_false_iff]
  rw [findBestConn, hempty, if_neg Bool.false_ne_true]
  dsimp only
  rw [hget]
  dsimp only
  rw [if_pos (hall c hc.mem)]

lemma exists_nearest (hash : UInt64) (hs : Sorted cl) (hne : cl ≠ []) : ∃ c, Nearest hash cl c :=
  ⟨_, (bsearch_lands hash hs hne).nearest hs⟩

lemma Nearest.of_subset (hc : Nearest hash cl c) (hsub : cl' ⊆ cl) (hmem : c ∈ cl') :
    Nearest hash cl' c :=
  ⟨hmem, fun d hd => hc.first d (hsub hd), fun h d hd => hc.largest h d (hsub hd)⟩

/-- The result has the highest weight of all connections. -/
def HighestWeight (msgHash : UInt64) (cl : List (TfwHashConn κ)) (r : Found κ) : Prop :=
  ∀ d ∈ cl, ∃ c ∈ cl, r = .conn c.conn ∧ msgHash ^^^ d.hash ≤ msgHash ^^^ c.hash

/-- Taking one connection away moves only the message that was mapped to it. -/
def RemapsOnly (suitable : κ → Bool) (msgHash : UInt64) (cl : List (TfwHashConn κ)) : Prop :=
  ∀ c cl', Built cl' → cl.Perm (c :: cl') → findBestConn suitable msgHash cl ≠ .conn c.conn →
    findBestConn suitable msgHash cl' = findBestConn suitable msgHash cl

/-- Against any other connection, the nearest one has the complement of the message's bit in
the highest bit in which their hashes differ. -/
def NearestAgrees (msgHash : UInt64) (cl : List (TfwHashConn κ)) : Prop :=
  ∀ c, Nearest (ulongMax ^^^ msgHash) cl c → ∀ d ∈ cl, ∀ j,
    TopDiff c.hash.toNat d.hash.toNat j → msgHash.toNat.testBit j ≠ c.hash.toNat.testBit j

lemma weight_le_iff (h : TopDiff a.toNat b.toNat j) :
    msgHash ^^^ b ≤ msgHash ^^^ a ↔ msgHash.toNat.testBit j ≠ a.toNat.testBit j := by
  rw [UInt64.le_iff_toNat_le, UInt64.toNat_xor, UInt64.toNat_xor]
  exact h.xor_le_iff msgHash.toNat

lemma highestWeight_iff (hb : Built cl) (hc : c ∈ cl) : HighestWeight msgHash cl (.conn c.conn) ↔
      ∀ d ∈ cl, msgHash ^^^ d.hash ≤ msgHash ^^^ c.hash := by
  constructor
  · intro h d hd
    obtain ⟨e, he, hr, hle⟩ := h d hd
    obtain rfl : c = e := inj_on_of_nodup_map hb.nodup hc he (Found.conn.inj hr)
    exact hle
  · intro h d hd
    exact ⟨c, hc, rfl, h d hd⟩

lemma remapsOnly (hb : Built cl) (hall : ∀ c ∈ cl, suitable c.conn = true) (msgHash : UInt64) :
    RemapsOnly suitable msgHash cl := by
  intro c cl' hb' hperm hfound
  have hsub : cl' ⊆ cl := fun d hd => hperm.mem_iff.mpr (mem_cons_of_mem c hd)
  have hne : cl ≠ [] := ne_nil_of_mem (hperm.mem_iff.mpr mem_cons_self)
  obtain ⟨s, hs⟩ := exists_nearest (ulongMax ^^^ msgHash) hb.sorted hne
  rw [findBestConn_eq hb.sorted hall hs] at hfound ⊢
  have hmem : s ∈ cl' := by
    obtain rfl | hmem := mem_cons.mp (hperm.mem_iff.mp hs.mem)
    · exact absurd rfl hfound
    · exact hmem
  exact findBestConn_eq hb'.sorted (fun d hd => hall d (hsub hd)) (hs.of_subset hsub hmem)

theorem findBestConn_highest_iff {suitable : κ → Bool} {cl : List (TfwHashConn κ)} (hb : Built cl)
    (hall : ∀ c ∈ cl, suitable c.conn = true) (msgHash : UInt64) :
    HighestWeight msgHash cl (findBestConn suitable msgHash cl) ∧ RemapsOnly suitable msgHash cl ↔
      NearestAgrees msgHash cl := by
  rw [and_iff_left (remapsOnly hb hall msgHash)]
  by_cases hne : cl = []
  · subst hne
    exact ⟨fun _ c hc => absurd hc.mem not_mem_nil, fun _ d hd => absurd hd not_mem_nil⟩
  obtain ⟨s, hs⟩ := exists_nearest (ulongMax ^^^ msgHash) hb.sorted hne
  rw [findBestConn_eq hb.sorted hall hs, highestWeight_iff hb hs.mem]
  constructor
  · intro h c hc d hd j hj
    obtain rfl := hc.unique hb.sorted hs
    exact (weight_le_iff hj).mp (h d hd)
  · intro h d hd
    by_cases heq : s.hash.toNat = d.hash.toNat
    · rw [UInt64.toNat.inj heq]
      exact UInt64.le_refl _
    · obtain ⟨j, hj⟩ := exists_topDiff heq
      exact (weight_le_iff hj).mpr (h s hs d hd j hj)

def threeConns : List (TfwHashConn Nat) := [⟨2, 1⟩, ⟨6, 0⟩, ⟨12, 2⟩]

/-- Three connections, added in the order of their numbers, and a message whose complement is 5:
the nearest hash from above is 6, and it has the highest weight. -/
theorem findBestConn_highest_three :
    Built threeConns ∧ NearestAgrees (ulongMax ^^^ 5) threeConns ∧
    findBestConn (fun _ => true) (ulongMax ^^^ 5) threeConns = .conn 0 ∧
    HighestWeight (ulongMax ^^^ 5) threeConns (.conn 0) ∧
    RemapsOnly (fun _ => true) (ulongMax ^^^ 5) threeConns := by
  have hone : Built [(⟨6, 0⟩ : TfwHashConn Nat)] :=
    .add .empty (by decide) (show addConn [] 0 6 = some _ from rfl)
  have htwo : Built [⟨2, 1⟩, (⟨6, 0⟩ : TfwHashConn Nat)] :=
    .add hone (by decide) (show addConn _ 1 2 = some _ from rfl)
  have hb : Built threeConns := .add htwo (by decide) (show addConn _ 2 12 = some _ from rfl)
  have hfound : findBestConn (fun _ => true) (ulongMax ^^^ 5) threeConns = .conn 0 := by decide
  have hnear : Nearest (ulongMax ^^^ (ulongMax ^^^ 5)) threeConns ⟨6, 0⟩ :=
    ⟨by decide, by decide, by decide⟩
  have hagrees : NearestAgrees (ulongMax ^^^ 5) threeConns := by
    intro c hc d hd j hj
    obtain rfl := hc.unique hb.sorted hnear
    have hle : ∀ d ∈ threeConns, (ulongMax ^^^ 5) ^^^ d.hash ≤ (ulongMax ^^^ 5) ^^^ 6 := by decide
    exact (weight_le_iff hj).mp (hle d hd)
  obtain ⟨hweight, hremaps⟩ :=
    (@findBestConn_highest_iff _ (fun _ => true) _ hb (fun _ _ => rfl) _).mpr hagrees
  exact ⟨hb, hagrees, hfound, hfound ▸ hweight, hremaps⟩

/-- Two connections with the hashes 4 and 5: the message whose complement is 3 goes to the
first one, which has the lower weight. -/
theorem second_has_higher_weight :
    addConn ([] : List (TfwHashConn Nat)) 0 4 = some [⟨4, 0⟩] ∧
    addConn [⟨4, 0⟩] 1 5 = some [⟨4, 0⟩, (⟨5, 1⟩ : TfwHashConn Nat)] ∧
    findBestConn (fun _ => true) (ulongMax ^^^ 3) [⟨4, 0⟩, (⟨5, 1⟩ : TfwHashConn Nat)] = .conn 0 ∧
    (ulongMax ^^^ 3) ^^^ 4 < (ulongMax ^^^ 3) ^^^ 5 := by
  decide

end Tempesta.Sched
