import Tempesta.Lib.Evict
import Tempesta.Hpack.EncoderTable

/-!
The layout of the ring buffer. The nodes stand one behind the other from `first`
on; once the end of the buffer has no room, they go on at its start. Here the
arithmetic of `tfw_hpack_rbuf_calc` and of the choice of a place for a new node
is followed on that layout.
-/

namespace Tempesta.Hpack
open List EvictLib Option TfwHPackETblIter

/-- A node of the ring: its place and what was stored in it. -/
structure Slot where
  pos : Nat
  hdrLen : Nat
  rindex : UInt64
  text : List UInt8

variable {p e q e1 e2 : Nat} {it : TfwHPackETblIter} {t : TfwHPackTree} {s : Slot}

namespace Slot

def words (s : Slot) : Nat := nodeLen s.hdrLen / 8

def next (s : Slot) : Nat := s.pos + s.words

/-- What the node counts for in the size of the table. -/
def cost (s : Slot) : Nat := hpackEntryOverhead + s.hdrLen

lemma nodeLen_eq : nodeLen s.hdrLen = 8 * s.words := by
  simp only [words, nodeLen, hpackAlign]
  omega

lemma two_le_words : 2 ≤ s.words := by
  simp only [words, nodeLen, hpackAlign]
  omega

lemma words_le_cost : 8 * s.words ≤ s.cost := by
  simp only [words, nodeLen, hpackAlign, cost, hpackEntryOverhead]
  omega

lemma hdrLen_le_words : 16 + s.hdrLen ≤ 8 * s.words := by
  simp only [words, nodeLen, hpackAlign]
  omega

end Slot

def ringWords (ss : List Slot) : Nat := (ss.map Slot.words).sum

def ringCost (ss : List Slot) : Nat := (ss.map Slot.cost).sum

/-- The nodes stand one behind the other from `p` to `e`. -/
def Consec : Nat → List Slot → Nat → Prop
  | p, [], e => p = e
  | p, s :: ss, e => s.pos = p ∧ Consec s.next ss e

variable {ss : List Slot}

section Consec
@[simp] lemma ringWords_nil : ringWords [] = 0 := rfl

@[simp] lemma ringWords_cons : ringWords (s :: ss) = s.words + ringWords ss := by
  simp [ringWords]

variable {xs ys : List Slot}

lemma ringWords_append : ringWords (xs ++ ys) = ringWords xs + ringWords ys := by
  simp [ringWords]

@[simp] lemma ringCost_nil : ringCost [] = 0 := rfl

@[simp] lemma ringCost_cons : ringCost (s :: ss) = s.cost + ringCost ss := by
  simp [ringCost]

lemma ringCost_append : ringCost (xs ++ ys) = ringCost xs + ringCost ys := by
  simp [ringCost]

lemma ringWords_le_cost (ss : List Slot) : 8 * ringWords ss ≤ ringCost ss := by
  induction ss with
  | nil => simp
  | cons s ss ih =>
    have hs := s.words_le_cost
    simp only [ringWords_cons, ringCost_cons]
    omega

lemma Consec.end_eq (h : Consec p ss e) : e = p + ringWords ss := by
  induction ss generalizing p with
  | nil => simpa [Consec] using h.symm
  | cons s ss ih =>
    obtain ⟨rfl, h⟩ := h
    rw [ih h, Slot.next, ringWords_cons]
    omega

lemma Consec.append (h : Consec p ss q) (h' : Consec q xs e) : Consec p (ss ++ xs) e := by
  induction ss generalizing p with
  | nil =>
    cases h
    exact h'
  | cons s ss ih => exact ⟨h.1, ih h.2⟩

lemma Consec.mem (h : Consec p ss e) (hs : s ∈ ss) : p ≤ s.pos ∧ s.next ≤ e := by
  induction ss generalizing p with
  | nil => cases hs
  | cons x xs ih =>
    obtain ⟨rfl, h⟩ := h
    have hend := h.end_eq
    simp only [Slot.next] at *
    obtain rfl | hs := mem_cons.mp hs
    · omega
    · have := ih h hs
      omega

def Apart (s s' : Slot) : Prop := s.next ≤ s'.pos ∨ s'.next ≤ s.pos

instance : Std.Symm Apart := ⟨fun _ _ => Or.symm⟩

lemma Consec.pairwise (h : Consec p ss e) : ss.Pairwise Apart := by
  induction ss generalizing p with
  | nil => exact .nil
  | cons x xs ih =>
    obtain ⟨rfl, h⟩ := h
    exact .cons (fun s hs => .inl (h.mem hs).1) (ih h)

lemma Consec.getLast_next (h : Consec p ss e) (hne : ss ≠ []) : (ss.getLast hne).next = e := by
  induction ss generalizing p with
  | nil => exact absurd rfl hne
  | cons x xs ih =>
    cases xs with
    | nil => exact h.2
    | cons y ys => exact ih h.2 (by simp)

lemma Consec.head_pos (h : Consec p ss e) (hne : ss ≠ []) :
    ss.head?.map Slot.pos = some p := by
  cases ss with
  | nil => exact absurd rfl hne
  | cons x xs => exact congrArg some h.1

lemma Consec.le (h : Consec p ss e) : p ≤ e := by
  rw [h.end_eq]
  exact Nat.le_add_right _ _

end Consec

/-- The nodes `up` stand from `first` to the end `e1` of the used part, and the
nodes `low`, if any, from the start of the buffer to `e2`. -/
structure RingAt (it : TfwHPackETblIter) (up low : List Slot) (p e1 e2 : Nat) : Prop where
  up_nil : up = [] → low = []
  up_at : Consec p up e1
  low_at : Consec 0 low e2
  low_le : e2 ≤ p
  up_le : e1 ≤ 512
  first : it.first = up.head?.map Slot.pos
  last : it.last = (up ++ low).getLast?.map Slot.pos
  rbSize : it.rbSize = if low = [] then hpackEncTableMaxSize else 8 * e1
  rbLen : it.rbLen = 8 * ringWords (up ++ low)
  size : it.size = ringCost (up ++ low)
  size_le : it.size ≤ hpackEncTableMaxSize

variable {up low : List Slot} {a b limit : Nat} {collect : Bool}

lemma RingAt.mem_next_le (h : RingAt it up low p e1 e2) (hs : s ∈ up ++ low) :
    s.next ≤ 512 := by
  obtain hs | hs := mem_append.mp hs
  · exact Nat.le_trans (h.up_at.mem hs).2 h.up_le
  · have hend := h.up_at.end_eq
    have := (h.low_at.mem hs).2
    have := h.low_le
    have := h.up_le
    omega

lemma RingAt.pairwise (h : RingAt it up low p e1 e2) : (up ++ low).Pairwise Apart := by
  rw [pairwise_append]
  refine ⟨h.up_at.pairwise, h.low_at.pairwise, fun s hs s' hs' => .inr ?_⟩
  exact Nat.le_trans (h.low_at.mem hs').2 (Nat.le_trans h.low_le (h.up_at.mem hs).1)

lemma subU16_of_le (h : b ≤ a) (ha : a < 2 ^ 16) : subU16 a b = a - b := by
  simp only [subU16]
  omega

lemma Slot.hpackNodeSize_eq (ht : t.hdrLen s.pos = s.hdrLen) :
    hpackNodeSize t s.pos = 8 * s.words := by
  rw [hpackNodeSize, ht, s.nodeLen_eq]

lemma Slot.hpackNodeNext_eq (ht : t.hdrLen s.pos = s.hdrLen) :
    hpackNodeNext t s.pos = s.next := by
  rw [hpackNodeNext, hpackNodeSize_eq ht, Slot.next, Nat.mul_div_cancel_left _ (by omega)]

lemma ringWords_pos (h : ss ≠ []) : 0 < ringWords ss := by
  cases ss with
  | nil => exact absurd rfl h
  | cons s ss =>
    have := s.two_le_words
    rw [ringWords_cons]
    omega

lemma RingAt.dropFirst_counters (h : RingAt it (s :: up) low p e1 e2)
    (ht : t.hdrLen s.pos = s.hdrLen) :
    subU16 it.size (hpackEntryOverhead + t.hdrLen s.pos) = ringCost (up ++ low) ∧
      subU16 it.rbLen (hpackNodeSize t s.pos) = 8 * ringWords (up ++ low) := by
  have hle := h.size_le
  have hcost := h.size
  have hlen := h.rbLen
  have hwords := ringWords_le_cost (s :: up ++ low)
  rw [Slot.hpackNodeSize_eq ht, ht]
  simp only [cons_append, ringCost_cons, ringWords_cons, Slot.cost, hpackEncTableMaxSize]
    at hcost hlen hwords hle
  rw [subU16_of_le (by omega) (by omega), subU16_of_le (by omega) (by omega)]
  omega

/-- The test of `tfw_hpack_rbuf_calc` for the end of the upper part. -/
theorem RingAt.drop_test {last : Slot} (h : RingAt it (s :: up) low p e1 e2)
    (hlast : (up ++ low).getLast? = some last) :
    (last.pos < s.pos ∧ (it.rbLen : Int) - (8 * s.words : Nat) =
      8 * last.pos + (8 * last.words : Nat))
      ↔ up = [] := by
  obtain ⟨hpos, hup⟩ := h.up_at
  have hlen := h.rbLen
  simp only [cons_append, ringWords_cons, ringWords_append] at hlen
  by_cases hlow : low = []
  · subst hlow
    have hmem : last ∈ up := by simpa using mem_of_getLast? hlast
    have hle := (hup.mem hmem).1
    have hne : up ≠ [] := ne_nil_of_mem hmem
    simp only [Slot.next, hne, iff_false] at hle ⊢
    omega
  · have hne : up ++ low ≠ [] := by simp [hlow]
    have hlast' : low.getLast hlow = last := by
      rw [getLast?_eq_some_getLast hne, getLast_append_of_ne_nil _ hlow] at hlast
      exact Option.some.inj hlast
    have hnext := h.low_at.getLast_next hlow
    rw [hlast', Slot.next] at hnext
    have hend := h.low_at.end_eq
    have hle := h.low_le
    have hlw := last.two_le_words
    constructor
    · intro hc
      by_contra hup
      have := ringWords_pos hup
      omega
    · rintro rfl
      simp only [ringWords_nil] at hlen
      omega

/-- Dropping the eldest of several nodes. Where it was the only one before the
end of the buffer, the ring continues at the start. -/
theorem RingAt.dropFirst {last : Slot} (h : RingAt it (s :: up) low p e1 e2)
    (hlast : (up ++ low).getLast? = some last) (ht : t.hdrLen s.pos = s.hdrLen) :
    ∃ up' low' p' e1' e2', up' ++ low' = up ++ low ∧
      RingAt (rbufDropFirst t last.pos (8 * last.words) it s.pos) up' low' p' e1' e2' := by
  obtain ⟨hcost, hlen⟩ := h.dropFirst_counters ht
  have htest := h.drop_test hlast
  obtain ⟨hpos, hup⟩ := h.up_at
  have hsize := h.size
  have hle := h.size_le
  have hnext := h.last
  simp only [cons_append, ringCost_cons] at hsize
  have hrest : ringCost (up ++ low) ≤ hpackEncTableMaxSize := by omega
  rw [cons_append, getLast?_cons, hlast, getD_some] at hnext
  by_cases hwrap : up = []
  · subst hwrap
    have hlow : low ≠ [] := by rintro rfl; cases hlast
    have hcond := htest.mpr rfl
    rw [nil_append] at hlast
    refine ⟨low, [], 0, e2, 0, append_nil low, ?_⟩
    simp only [rbufDropFirst, Slot.hpackNodeSize_eq ht, if_pos hcond] at hcost hlen ⊢
    exact {
      up_nil := fun _ => rfl
      up_at := h.low_at
      low_at := rfl
      low_le := Nat.le_refl 0
      up_le := h.low_le.trans (h.up_at.le.trans h.up_le)
      first := (h.low_at.head_pos hlow).symm
      last := by simpa [hlast] using hnext
      rbSize := rfl
      rbLen := by simpa using hlen
      size := by simpa using hcost
      size_le := by simpa [hcost] using hrest }
  · have hcond := mt htest.mp hwrap
    refine ⟨up, low, s.next, e1, e2, rfl, ?_⟩
    simp only [rbufDropFirst, Slot.hpackNodeSize_eq ht, if_neg hcond, Slot.hpackNodeNext_eq ht]
      at hcost hlen ⊢
    exact {
      up_nil := fun h => absurd h hwrap
      up_at := hup
      low_at := h.low_at
      low_le := by have := h.low_le; simp only [Slot.next]; omega
      up_le := h.up_le
      first := (hup.head_pos hwrap).symm
      last := by simpa [hlast] using hnext
      rbSize := h.rbSize
      rbLen := hlen
      size := hcost
      size_le := by simpa [hcost] using hrest }

/-- The iterator describes a ring with the given nodes, eldest first. -/
def IsRing (it : TfwHPackETblIter) (ss : List Slot) : Prop :=
  ∃ up low p e1 e2, up ++ low = ss ∧ RingAt it up low p e1 e2

variable {s : Slot} {ss : List Slot}

section Calc
lemma IsRing.size (h : IsRing it ss) : it.size = ringCost ss := by
  obtain ⟨up, low, p, e1, e2, rfl, h⟩ := h
  exact h.size

lemma IsRing.first (h : IsRing it (s :: ss)) : it.first = some s.pos := by
  obtain ⟨up, low, p, e1, e2, heq, h⟩ := h
  cases up with
  | nil =>
    rw [h.up_nil rfl] at heq
    cases heq
  | cons x xs =>
    cases heq
    exact h.first

lemma IsRing.last (h : IsRing it ss) : it.last = ss.getLast?.map Slot.pos := by
  obtain ⟨up, low, p, e1, e2, rfl, h⟩ := h
  exact h.last

lemma IsRing.pairwise (h : IsRing it ss) : ss.Pairwise Apart := by
  obtain ⟨up, low, p, e1, e2, rfl, h⟩ := h
  exact h.pairwise

lemma IsRing.next_le (h : IsRing it ss) (hs : s ∈ ss) : s.next ≤ 512 := by
  obtain ⟨up, low, p, e1, e2, rfl, h⟩ := h
  exact h.mem_next_le hs

variable {last : Slot}

lemma IsRing.dropFirst (h : IsRing it (s :: ss)) (hlast : ss.getLast? = some last)
    (ht : t.hdrLen s.pos = s.hdrLen) :
    IsRing (rbufDropFirst t last.pos (8 * last.words) it s.pos) ss := by
  obtain ⟨up, low, p, e1, e2, heq, h⟩ := h
  cases up with
  | nil =>
    rw [h.up_nil rfl] at heq
    cases heq
  | cons x xs =>
    obtain ⟨rfl, rfl⟩ := List.cons.inj heq
    obtain ⟨up', low', p', e1', e2', heq', h'⟩ := h.dropFirst hlast ht
    exact ⟨up', low', p', e1', e2', heq', h'⟩

lemma two_mul_length_le (ss : List Slot) : 2 * ss.length ≤ ringWords ss := by
  induction ss with
  | nil => simp
  | cons s ss ih =>
    have := s.two_le_words
    rw [ringWords_cons, length_cons]
    omega

lemma IsRing.length_le (h : IsRing it ss) :
    ss.length ≤ 256 := by
  have hcost := h.size
  obtain ⟨up, low, p, e1, e2, rfl, h⟩ := h
  have hle := h.size_le
  have hwords := ringWords_le_cost (up ++ low)
  have hlen := two_mul_length_le (up ++ low)
  simp only [hpackEncTableMaxSize] at hle
  omega

variable {s' : Slot}

lemma Apart.pos_ne (h : Apart s s') : s.pos ≠ s'.pos := by
  have := s.two_le_words
  have := s'.two_le_words
  simp only [Apart, Slot.next] at h
  omega

lemma IsRing.last_ne (h : IsRing it (s :: ss)) (hlast : ss.getLast? = some last) :
    last.pos ≠ s.pos :=
  ((pairwise_cons.mp h.pairwise).1 last (mem_of_getLast? hlast)).pos_ne.symm

/-- The planning loop collects what has to be evicted, unless that is too much
or everything. -/
theorem rbufCalcLoop_collect (fuel : Nat) (del : List Nat) (h : IsRing it ss)
    (ht : ∀ s ∈ ss, t.hdrLen s.pos = s.hdrLen) (hlast : ss.getLast? = some last)
    (hlimit : limit < ringCost ss) (hfuel : ss.length ≤ fuel) :
    (hpackMaxEncEviction < del.length + (evicted Slot.cost limit ss).length →
      rbufCalcLoop limit true last.pos (8 * last.words) fuel t it del = some (.error .e2big)) ∧
    (del.length + (evicted Slot.cost limit ss).length ≤ hpackMaxEncEviction →
      evicted Slot.cost limit ss ≠ ss →
      ∃ it', rbufCalcLoop limit true last.pos (8 * last.words) fuel t it del =
          some (.ok (t, it', del ++ (evicted Slot.cost limit ss).map Slot.pos)) ∧
        IsRing it' (ss.drop (evicted Slot.cost limit ss).length)) := by
  induction ss generalizing it del fuel with
  | nil => cases hlast
  | cons s ss ih =>
    obtain ⟨fuel, rfl⟩ : ∃ n, fuel = n + 1 := ⟨fuel - 1, by simp at hfuel; omega⟩
    have hgone : evicted Slot.cost limit (s :: ss) = s :: evicted Slot.cost limit ss := by
      exact if_pos hlimit
    rw [rbufCalcLoop, hgone, h.first]
    simp only [length_cons, bind_eq_bind, bind_some, if_true]
    by_cases hfull : hpackMaxEncEviction ≤ del.length
    · rw [if_pos hfull]
      exact ⟨fun _ => rfl, fun hle => by omega⟩
    rw [if_neg hfull]
    cases ss with
    | nil =>
      exact ⟨fun hlt => by simp [evicted] at hlt; omega, fun _ hne => by simp [evicted] at hne⟩
    | cons s' rest =>
      rw [getLast?_cons_cons] at hlast
      have hdrop := h.dropFirst hlast (ht s (by simp))
      rw [if_neg (h.last_ne hlast), hdrop.size]
      by_cases hmore : limit < ringCost (s' :: rest)
      · rw [if_pos hmore]
        have hnext := ih fuel (del ++ [s.pos]) hdrop
          (fun x hx => ht x (mem_cons_of_mem s hx)) hlast hmore
          (Nat.le_of_succ_le_succ hfuel)
        simp only [length_append, length_singleton, append_assoc,
          singleton_append] at hnext
        refine ⟨fun hlt => hnext.1 (by omega), fun hle hne => ?_⟩
        obtain ⟨it', hrun, hring⟩ := hnext.2 (by omega) (fun heq => hne (by rw [heq]))
        exact ⟨it', by simpa using hrun, by simpa using hring⟩
      · rw [if_neg hmore]
        have hnone : evicted Slot.cost limit (s' :: rest) = [] := by
          exact if_neg hmore
        rw [hnone]
        exact ⟨fun hlt => by simp at hlt; omega, fun _ _ => ⟨_, rfl, hdrop⟩⟩

lemma IsRing.exists_last (h : limit < ringCost ss) :
    ∃ l, ss.getLast? = some l := by
  cases ss with
  | nil => cases h
  | cons s ss => exact ⟨_, getLast?_eq_some_getLast (cons_ne_nil s ss)⟩

lemma rbufCalc_eq (h : IsRing it ss) (ht : ∀ s ∈ ss, t.hdrLen s.pos = s.hdrLen)
    (hlast : ss.getLast? = some last) :
    tfwHpackRbufCalc t limit collect it =
      rbufCalcLoop limit collect last.pos (8 * last.words) rbtreeFuel t it [] := by
  have hl := h.last
  rw [hlast, map_some] at hl
  simp only [tfwHpackRbufCalc, hl, bind_eq_bind, bind_some,
    Slot.hpackNodeSize_eq (ht last (mem_of_getLast? hlast))]

lemma rbufCalc_collect (h : IsRing it ss) (ht : ∀ s ∈ ss, t.hdrLen s.pos = s.hdrLen)
    (hlimit : limit < ringCost ss) :
    (hpackMaxEncEviction < (evicted Slot.cost limit ss).length →
      tfwHpackRbufCalc t limit true it = some (.error .e2big)) ∧
    ((evicted Slot.cost limit ss).length ≤ hpackMaxEncEviction →
      evicted Slot.cost limit ss ≠ ss →
      ∃ it', tfwHpackRbufCalc t limit true it =
          some (.ok (t, it', (evicted Slot.cost limit ss).map Slot.pos)) ∧
        IsRing it' (ss.drop (evicted Slot.cost limit ss).length)) := by
  obtain ⟨l, hl⟩ := IsRing.exists_last hlimit
  have hfuel : ss.length ≤ rbtreeFuel := h.length_le.trans (by decide)
  have hloop := rbufCalcLoop_collect rbtreeFuel [] h ht hl hlimit hfuel
  rw [rbufCalc_eq h ht hl]
  simpa only [length_nil, Nat.zero_add, nil_append] using hloop

end Calc

/-- The place where a node of the given length goes behind the node `last`. -/
def placeBehind (t : TfwHPackTree) (last : Option Nat) (len : Nat) : Nat :=
  match last with
  | none => 0
  | some last =>
    if 8 * hpackNodeNext t last + len ≤ hpackEncTableMaxSize then hpackNodeNext t last else 0

def TfwHPackETblIter.count (it : TfwHPackETblIter) (new : Slot) : TfwHPackETblIter :=
  { it with size := it.size + new.cost, rbLen := it.rbLen + nodeLen new.hdrLen }

variable {up low : List Slot}

section Place
variable {new : Slot}

lemma ringWords_snoc : ringWords (ss ++ [s]) = ringWords ss + s.words := by
  simp [ringWords_append]

lemma ringCost_snoc : ringCost (ss ++ [s]) = ringCost ss + s.cost := by
  simp [ringCost_append]

lemma Consec.snoc (h : Consec q ss e) (hs : s.pos = e) : Consec q (ss ++ [s]) s.next :=
  h.append ⟨hs, rfl⟩

lemma RingAt.start (h : RingAt it [] low p e1 e2) (hnew : new.pos = 0)
    (hfit : new.cost ≤ hpackEncTableMaxSize) :
    RingAt (({ it with first := some 0, last := some 0 } : TfwHPackETblIter).count new)
      [new] [] 0 new.next 0 := by
  have hlow := h.up_nil rfl
  subst hlow
  have hwords := new.words_le_cost
  have hsize := h.size
  have hlen := h.rbLen
  exact {
    up_nil := fun _ => rfl
    up_at := ⟨hnew, rfl⟩
    low_at := rfl
    low_le := Nat.le_refl 0
    up_le := by simp only [Slot.next, hnew, hpackEncTableMaxSize] at *; omega
    first := by simp [TfwHPackETblIter.count, hnew]
    last := by simp [TfwHPackETblIter.count, hnew]
    rbSize := h.rbSize
    rbLen := by simp [TfwHPackETblIter.count, hlen, new.nodeLen_eq]
    size := by simp [TfwHPackETblIter.count, hsize]
    size_le := by simpa [TfwHPackETblIter.count, hsize] using hfit }

lemma RingAt.behindUp (h : RingAt it up [] p e1 e2) (hne : up ≠ []) (hnew : new.pos = e1)
    (hcost : ringCost up + new.cost ≤ hpackEncTableMaxSize) (hroom : new.next ≤ 512) :
    RingAt (({ it with last := some e1 } : TfwHPackETblIter).count new)
      (up ++ [new]) [] p new.next e2 := by
  have hsize := h.size
  have hlen := h.rbLen
  have hfirst := h.first
  rw [append_nil] at hsize hlen
  exact {
    up_nil := fun _ => rfl
    up_at := h.up_at.snoc hnew
    low_at := h.low_at
    low_le := h.low_le
    up_le := hroom
    first := by simpa [TfwHPackETblIter.count, head?_append_of_ne_nil _ hne] using hfirst
    last := by simp [TfwHPackETblIter.count, hnew]
    rbSize := h.rbSize
    rbLen := by
      simp only [TfwHPackETblIter.count, append_nil, ringWords_snoc, hlen, new.nodeLen_eq]
      omega
    size := by simp [TfwHPackETblIter.count, ringCost_snoc, hsize]
    size_le := by simpa [TfwHPackETblIter.count, hsize] using hcost }

/-- At the start of the buffer, when its end has no room: the ring comes round,
and the rest of the end is given up. -/
theorem RingAt.comeRound (h : RingAt it up [] p e1 e2) (hne : up ≠ []) (hnew : new.pos = 0)
    (hcost : ringCost up + new.cost ≤ hpackEncTableMaxSize) (hroom : new.words ≤ p) :
    RingAt (({ it with rbSize := 8 * e1, last := some 0 } : TfwHPackETblIter).count new)
      up [new] p e1 new.next := by
  have hsize := h.size
  have hlen := h.rbLen
  rw [append_nil] at hsize hlen
  exact {
    up_nil := fun h => absurd h hne
    up_at := h.up_at
    low_at := ⟨hnew, rfl⟩
    low_le := by simpa [Slot.next, hnew] using hroom
    up_le := h.up_le
    first := h.first
    last := by simp [TfwHPackETblIter.count, hnew]
    rbSize := by simp [TfwHPackETblIter.count]
    rbLen := by
      simp only [TfwHPackETblIter.count, ringWords_snoc, hlen, new.nodeLen_eq]
      omega
    size := by simp [TfwHPackETblIter.count, ringCost_snoc, hsize]
    size_le := by simpa [TfwHPackETblIter.count, hsize] using hcost }

lemma RingAt.behindLow (h : RingAt it up low p e1 e2) (hne : low ≠ []) (hnew : new.pos = e2)
    (hcost : ringCost (up ++ low) + new.cost ≤ hpackEncTableMaxSize) (hroom : new.next ≤ p) :
    RingAt (({ it with last := some e2 } : TfwHPackETblIter).count new)
      up (low ++ [new]) p e1 new.next := by
  have hsize := h.size
  have hlen := h.rbLen
  have hrb := h.rbSize
  rw [if_neg hne] at hrb
  exact {
    up_nil := fun hup => absurd (h.up_nil hup) hne
    up_at := h.up_at
    low_at := h.low_at.snoc hnew
    low_le := hroom
    up_le := h.up_le
    first := h.first
    last := by simp [TfwHPackETblIter.count, hnew]
    rbSize := by simpa [TfwHPackETblIter.count] using hrb
    rbLen := by
      simp only [TfwHPackETblIter.count, ← append_assoc, ringWords_snoc, hlen,
        new.nodeLen_eq]
      omega
    size := by simp [TfwHPackETblIter.count, ← append_assoc, ringCost_snoc, hsize]
    size_le := by simpa [TfwHPackETblIter.count, hsize] using hcost }

lemma RingAt.last_slot (h : RingAt it up low p e1 e2) (hne : up ≠ []) :
    ∃ l ∈ up ++ low, it.last = some l.pos ∧ l.next = (if low = [] then e1 else e2) ∧
      (p ≤ l.pos ↔ low = []) := by
  have hall : up ++ low ≠ [] := by simp [hne]
  have hlast := h.last
  rw [getLast?_eq_some_getLast hall, map_some] at hlast
  refine ⟨(up ++ low).getLast hall, getLast_mem hall, hlast, ?_⟩
  by_cases hlow : low = []
  · subst hlow
    simp only [append_nil, if_true, iff_true]
    exact ⟨h.up_at.getLast_next hne, (h.up_at.mem (getLast_mem hne)).1⟩
  · rw [getLast_append_of_ne_nil _ hlow, if_neg hlow]
    have hnext := h.low_at.getLast_next hlow
    refine ⟨hnext, iff_of_false ?_ hlow⟩
    have hle := h.low_le
    have hwords := (low.getLast hlow).two_le_words
    simp only [Slot.next] at hnext
    omega

/-- What finding a place for `new` in the ring comes to. -/
def Placed (t : TfwHPackTree) (it : TfwHPackETblIter) (ss : List Slot) (new : Slot) : Prop :=
  rbufPlace t it (nodeLen new.hdrLen) = some none ∨
  ∃ it', rbufPlace t it (nodeLen new.hdrLen) = some (some it') ∧ it'.last = some new.pos ∧
    IsRing (it'.count new) (ss ++ [new])

lemma RingAt.placed_nil (h : RingAt it [] low p e1 e2)
    (hcost : ringCost low + new.cost ≤ hpackEncTableMaxSize)
    (hnew : new.pos = placeBehind t it.last (nodeLen new.hdrLen)) : Placed t it low new := by
  have hlow := h.up_nil rfl
  subst hlow
  have hfirst : it.first = none := h.first
  have hlast : it.last = none := h.last
  rw [hlast] at hnew
  simp only [Placed, rbufPlace, hfirst]
  by_cases hfull : it.rbSize < it.rbLen + nodeLen new.hdrLen
  · exact .inl (if_pos hfull)
  rw [if_neg hfull]
  refine .inr ⟨_, rfl, congrArg some hnew.symm, [new], [], 0, new.next, 0, rfl, ?_⟩
  exact h.start hnew (by simpa using hcost)

lemma RingAt.placed_up (h : RingAt it up [] p e1 e2) (hne : up ≠ [])
    (ht : ∀ s ∈ up, t.hdrLen s.pos = s.hdrLen)
    (hcost : ringCost up + new.cost ≤ hpackEncTableMaxSize)
    (hnew : new.pos = placeBehind t it.last (nodeLen new.hdrLen)) : Placed t it up new := by
  obtain ⟨l, hl, hlast, hnext, hle⟩ := h.last_slot hne
  rw [append_nil] at hl
  have hmax : hpackEncTableMaxSize = 4096 := rfl
  have hfirst : it.first = some p := h.first.trans (h.up_at.head_pos hne)
  have hll : p ≤ l.pos := hle.mpr rfl
  have hend := h.up_at.end_eq
  have huple := h.up_le
  have hlen := h.rbLen
  have hrb := h.rbSize
  have hnl := new.nodeLen_eq
  simp only [if_true, append_nil] at hnext hrb hlen
  have hspace : subU16 hpackEncTableMaxSize (8 * l.pos + hpackNodeSize t l.pos) =
      4096 - 8 * e1 := by
    simp only [Slot.next] at hnext
    rw [Slot.hpackNodeSize_eq (ht l hl), subU16_of_le (by omega) (by decide)]
    omega
  simp only [hlast, placeBehind, Slot.hpackNodeNext_eq (ht l hl), hnext] at hnew
  simp only [Placed, rbufPlace, hfirst, hlast, Slot.hpackNodeNext_eq (ht l hl), hnext, hspace,
    bind_eq_bind, bind_some]
  by_cases hfull : it.rbSize < it.rbLen + nodeLen new.hdrLen
  · exact .inl (if_pos hfull)
  rw [if_neg hfull]
  by_cases hwrap : 4096 - 8 * e1 < nodeLen new.hdrLen
  · rw [if_pos ⟨hll, hwrap⟩]
    by_cases hno : (it.rbSize : Int) - (4096 - 8 * e1 : Nat) < it.rbLen + nodeLen new.hdrLen
    · exact .inl (if_pos hno)
    have hsub : subU16 it.rbSize (4096 - 8 * e1) = 8 * e1 := by
      rw [subU16_of_le (by omega) (by omega)]
      omega
    rw [if_neg (by omega)] at hnew
    have hring := h.comeRound hne hnew hcost (by omega)
    rw [hfirst] at hring
    rw [if_neg hno, hsub]
    exact .inr ⟨_, rfl, congrArg some hnew.symm, up, [new], p, e1, new.next, rfl, hring⟩
  · rw [if_pos (by omega)] at hnew
    have hring := h.behindUp hne hnew hcost (by simp only [Slot.next]; omega)
    rw [hfirst] at hring
    rw [if_neg (fun hc => hwrap hc.2)]
    exact .inr ⟨_, rfl, congrArg some hnew.symm, up ++ [new], [], p, new.next, e2, by simp, hring⟩

lemma RingAt.placed_low (h : RingAt it up low p e1 e2) (hlow : low ≠ [])
    (ht : ∀ s ∈ up ++ low, t.hdrLen s.pos = s.hdrLen)
    (hcost : ringCost (up ++ low) + new.cost ≤ hpackEncTableMaxSize)
    (hnew : new.pos = placeBehind t it.last (nodeLen new.hdrLen)) :
    Placed t it (up ++ low) new := by
  have hne : up ≠ [] := fun hup => hlow (h.up_nil hup)
  obtain ⟨l, hl, hlast, hnext, hle⟩ := h.last_slot hne
  have hmax : hpackEncTableMaxSize = 4096 := rfl
  have hfirst : it.first = some p := h.first.trans (h.up_at.head_pos hne)
  have hll : ¬ p ≤ l.pos := mt hle.mp hlow
  have hend := h.up_at.end_eq
  have huple := h.up_le
  have hlend := h.low_at.end_eq
  have hlen := h.rbLen
  have hrb := h.rbSize
  have hnl := new.nodeLen_eq
  rw [if_neg hlow] at hnext hrb
  rw [ringWords_append] at hlen
  simp only [hlast, placeBehind, Slot.hpackNodeNext_eq (ht l hl), hnext] at hnew
  simp only [Placed, rbufPlace, hfirst, hlast, Slot.hpackNodeNext_eq (ht l hl), hnext,
    bind_eq_bind, bind_some]
  by_cases hfull : it.rbSize < it.rbLen + nodeLen new.hdrLen
  · exact .inl (if_pos hfull)
  rw [if_pos (by omega)] at hnew
  have hring := h.behindLow hlow hnew hcost (by simp only [Slot.next]; omega)
  rw [hfirst] at hring
  rw [if_neg hfull, if_neg (fun hc => hll hc.1)]
  exact .inr ⟨_, rfl, congrArg some hnew.symm, up, low ++ [new], p, e1, new.next, by simp, hring⟩

lemma rbufPlace_spec (h : IsRing it ss) (ht : ∀ s ∈ ss, t.hdrLen s.pos = s.hdrLen)
    (hcost : ringCost ss + new.cost ≤ hpackEncTableMaxSize)
    (hnew : new.pos = placeBehind t it.last (nodeLen new.hdrLen)) : Placed t it ss new := by
  obtain ⟨up, low, p, e1, e2, rfl, h⟩ := h
  by_cases hne : up = []
  · subst hne
    exact h.placed_nil hcost hnew
  by_cases hlow : low = []
  · subst hlow
    simp only [append_nil] at *
    exact h.placed_up hne ht hcost hnew
  · exact h.placed_low hlow ht hcost hnew

end Place

end Tempesta.Hpack
