import Tempesta.Lib.Run
import Tempesta.Hpack.EncoderCommit

/-!
Runs of the encoder table. After every step the tree and the ring hold the same
nodes, these are the ones added last, and the size is right, as long as no step
evicts in one of the ways that the code does not survive: all nodes at once, or
a node whose links the text of the new node covers.
-/

namespace Tempesta.Hpack
open List RbLib EvictLib RunLib Slot

/-- A header that was added: its index in reverse form, its name and its value. -/
structure NodeEntry where
  rindex : UInt64
  name : List UInt8
  value : List UInt8
  deriving DecidableEq

def NodeEntry.stored (e : NodeEntry) : UInt64 × List UInt8 := (e.rindex, e.name ++ e.value)

def storedIn (t : TfwHPackTree) (p : Nat) : UInt64 × List UInt8 := (t.rindex p, t.hdrText p)

/-- The nodes from `p` to `last`. Behind the node that ends at `rb_size` the ring
goes on at the start of the buffer. -/
def ringWalk (t : TfwHPackTree) (last rbSize : Nat) : Nat → Nat → List Nat
  | 0, _ => []
  | fuel + 1, p =>
    if p = last then [p]
    else
      p :: ringWalk t last rbSize fuel
        (if last < p ∧ 8 * hpackNodeNext t p = rbSize then 0 else hpackNodeNext t p)

/-- The nodes laid out in the ring buffer from `first` to `last`. -/
def ringNodes (tbl : TfwHPackETbl) : List Nat :=
  match tbl.first, tbl.last with
  | some first, some last => ringWalk tbl.toTfwHPackTree last tbl.rbSize 512 first
  | _, _ => []

/-- The table and all entries that were ever added to it, eldest first. -/
structure ETblRun where
  tbl : TfwHPackETbl
  added : List NodeEntry

inductive ETblOp where
  | addNode (hdr : TfwStr) (op : TfwH2TransOp) (behind : Nat → Nat → UInt8)
  | setRbufSize (newSize : UInt16)

/-- A header is added at the place that the search for it returns; the node is
not added if the search is successful. -/
def etblStep (s : ETblRun) : ETblOp → Option ETblRun
  | .addNode hdr op behind => do
      let (res, _, place) ← tfwHpackRbtreeFind behind s.tbl.toTfwHPackTree hdr ⟨none, .left⟩
      if res = .found then some s
      else
        match ← tfwHpackAddNode behind s.tbl hdr place op with
        | .error _ => some s
        | .ok tbl =>
          let (name, value, _) := tfwHttpHdrSplit hdr (op = .inplace)
          some ⟨tbl, s.added ++ [⟨tbl.idxAcc, name, value⟩]⟩
  | .setRbufSize newSize => do
      some { s with tbl := ← tfwHpackSetRbufSize s.tbl newSize.toNat }

def etblInit (rbuf : Nat → Word) : ETblRun := ⟨tfwHpackEncInit rbuf, []⟩

/-- The tree and the ring agree, and hold what was added last. -/
structure ETblConsistent (s : ETblRun) : Prop where
  reachable : ∀ p, Reachable s.tbl.toTfwHPackTree p ↔ p ∈ ringNodes s.tbl
  empty_first : s.tbl.root = none ↔ s.tbl.first = none
  empty_last : s.tbl.root = none ↔ s.tbl.last = none
  recent : (ringNodes s.tbl).map (storedIn s.tbl.toTfwHPackTree) <:+
    s.added.map NodeEntry.stored
  size : s.tbl.size = ((ringNodes s.tbl).map fun p => hpackEntryOverhead + s.tbl.hdrLen p).sum
  size_le : s.tbl.size ≤ s.tbl.window

/-- The nodes that have to leave before the rest fits into `limit`. -/
def evictedNodes (tbl : TfwHPackETbl) (limit : Nat) : List Nat :=
  evicted (fun p => hpackEntryOverhead + tbl.hdrLen p) limit (ringNodes tbl)

/-- Evicting down to `limit` and writing a node with a text of length `len` is
survived: some node remains, the text does not cover the links of an evicted
node, and the header is not equal to a node that remains. -/
def EvictionSafe (tbl : TfwHPackETbl) (hdr : TfwStr) (behind : Nat → Nat → UInt8)
    (limit len : Nat) : Prop :=
  let gone := evictedNodes tbl limit
  let new := placeBehind tbl.toTfwHPackTree tbl.last (nodeLen len)
  gone ≠ ringNodes tbl ∧
    (∀ x ∈ gone, new < x → 8 * new + 16 + len ≤ 8 * (x + 1)) ∧
    ∀ x ∈ (ringNodes tbl).drop gone.length, (nodeCompare behind tbl.toTfwHPackTree hdr x).1 ≠ 0

def StepSafe (s : ETblRun) : ETblOp → Prop
  | .addNode hdr op behind =>
    let (name, value, len) := tfwHttpHdrSplit hdr (op = .inplace)
    let nodeSize := len + hpackEntryOverhead
    nodeSize ≤ s.tbl.window →
      (name ++ value).length = len ∧
      (s.tbl.window < s.tbl.size + nodeSize →
        (evictedNodes s.tbl (s.tbl.window - nodeSize)).length ≤ hpackMaxEncEviction →
        EvictionSafe s.tbl hdr behind (s.tbl.window - nodeSize) len)
  | .setRbufSize newSize =>
    newSize.toNat < s.tbl.window → newSize.toNat < s.tbl.size →
      evictedNodes s.tbl newSize.toNat ≠ ringNodes s.tbl

instance (tbl : TfwHPackETbl) (hdr : TfwStr) (behind : Nat → Nat → UInt8) (limit len : Nat) :
    Decidable (EvictionSafe tbl hdr behind limit len) :=
  inferInstanceAs (Decidable (_ ∧ _ ∧ _))

instance (s : ETblRun) : (op : ETblOp) → Decidable (StepSafe s op)
  | .addNode hdr op behind => by
      unfold StepSafe
      infer_instance
  | .setRbufSize newSize => by
      unfold StepSafe
      infer_instance

variable {t : TfwHPackTree} {p e2 len : Nat} {l x new : Slot} {ss up low gone rest : List Slot}
  {tbl : TfwHPackETbl} {name value : List UInt8} {behind : Nat → Nat → UInt8} {T : RbTree Nat}
  {op : TfwH2TransOp} {it : TfwHPackETblIter} {place : TfwHPackNodeIter} {hdr : TfwStr}
  {newSize : UInt16}

section Walk
variable {e : Nat}

lemma ringWalk_consec (rbSize : Nat) (fuel : Nat) (h : Consec p ss e) (hl : ss.getLast? = some l)
    (ht : ∀ s ∈ ss, t.hdrLen s.pos = s.hdrLen) (hfuel : ss.length ≤ fuel) :
    ringWalk t l.pos rbSize fuel p = ss.map Slot.pos := by
  induction ss generalizing p fuel with
  | nil => cases hl
  | cons s ss ih =>
    obtain ⟨fuel, rfl⟩ : ∃ n, fuel = n + 1 := ⟨fuel - 1, by simp at hfuel; omega⟩
    obtain ⟨rfl, h⟩ := h
    cases ss with
    | nil =>
      cases hl
      simp [ringWalk]
    | cons s' rest =>
      rw [getLast?_cons_cons] at hl
      have hpos := (h.mem (mem_of_getLast? hl)).1
      have hw := s.two_le_words
      have hrest := ih fuel h hl (fun x hx => ht x (mem_cons_of_mem s hx))
        (Nat.le_of_succ_le_succ hfuel)
      simp only [Slot.next] at hpos
      rw [ringWalk, if_neg (by omega), if_neg (by omega), hpackNodeNext_eq (ht s (by simp)),
        hrest]
      rfl

lemma ringWalk_wrapped (fuel : Nat) (hup : Consec p up e) (hlow : Consec 0 low e2) (hle : e2 ≤ p)
    (hne : up ≠ []) (hl : low.getLast? = some l) (ht : ∀ s ∈ up ++ low, t.hdrLen s.pos = s.hdrLen)
    (hfuel : (up ++ low).length ≤ fuel) :
    ringWalk t l.pos (8 * e) fuel p = (up ++ low).map Slot.pos := by
  induction up generalizing p fuel with
  | nil => exact absurd rfl hne
  | cons s ss ih =>
    obtain ⟨fuel, rfl⟩ : ∃ n, fuel = n + 1 := ⟨fuel - 1, by simp at hfuel; omega⟩
    obtain ⟨rfl, hup⟩ := hup
    have hlast := (hlow.mem (mem_of_getLast? hl)).2
    have hw := l.two_le_words
    simp only [cons_append, length_cons] at hfuel
    simp only [Slot.next] at hlast
    rw [ringWalk, if_neg (by omega), hpackNodeNext_eq (ht s (by simp))]
    by_cases hss : ss = []
    · subst hss
      have hend : s.next = e := hup
      have hwalk := ringWalk_consec (8 * e) fuel hlow hl
        (fun x hx => ht x (mem_cons_of_mem s hx)) (by simpa using hfuel)
      rw [hend, if_pos ⟨by omega, rfl⟩, hwalk]
      rfl
    · have hend := hup.end_eq
      have hpos := ringWords_pos hss
      have hrest := ih fuel hup (by simp only [Slot.next]; omega) hss
        (fun x hx => ht x (mem_cons_of_mem s hx)) (by omega)
      rw [if_neg (by omega), hrest]
      rfl

lemma ringNodes_eq (h : IsRing tbl.toTfwHPackETblIter ss)
    (ht : ∀ s ∈ ss, tbl.hdrLen s.pos = s.hdrLen) : ringNodes tbl = ss.map Slot.pos := by
  have hlen := h.length_le
  obtain ⟨up, low, p, e1, e2, rfl, h⟩ := h
  by_cases hne : up = []
  · have hlow := h.up_nil hne
    subst hne hlow
    have hfirst : tbl.first = none := h.first
    simp [ringNodes, hfirst]
  · obtain ⟨l, hl⟩ : ∃ l, (up ++ low).getLast? = some l := by
      rw [getLast?_eq_some_getLast (by simp [hne])]
      exact ⟨_, rfl⟩
    have hfirst : tbl.first = some p := h.first.trans (h.up_at.head_pos hne)
    have hlast := h.last
    have hrb := h.rbSize
    rw [hl, Option.map_some] at hlast
    simp only [ringNodes, hfirst, hlast]
    by_cases hlow : low = []
    · subst hlow
      rw [append_nil] at *
      exact ringWalk_consec _ 512 h.up_at hl ht (by omega)
    · rw [if_neg hlow] at hrb
      rw [getLast?_append_of_ne_nil _ hlow] at hl
      rw [hrb]
      exact ringWalk_wrapped 512 h.up_at h.low_at h.low_le hne hl ht (by omega)

end Walk

def Slot.stored (s : Slot) : UInt64 × List UInt8 := (s.rindex, s.text)

/-- The invariant: `ss` are the nodes of the ring and `T` is the tree. -/
structure ETblInv (s : ETblRun) (ss : List Slot) (T : RbTree Nat) : Prop where
  ring : IsRing s.tbl.toTfwHPackETblIter ss
  tree : TreeAt s.tbl.toTfwHPackTree (ss.map Slot.pos) s.tbl.toTfwHPackTree T
  rb : RbInv T
  keys : T.toList.Perm (ss.map Slot.pos)
  stored : ∀ x ∈ ss, StoredAt s.tbl.toTfwHPackTree x
  recent : ss.map Slot.stored <:+ s.added.map NodeEntry.stored
  fits : s.tbl.size ≤ s.tbl.window
  window_le : s.tbl.window ≤ hpackEncTableMaxSize

section Invariant
variable {s : ETblRun}

lemma ETblInv.nodes (h : ETblInv s ss T) : ringNodes s.tbl = ss.map Slot.pos :=
  ringNodes_eq h.ring fun x hx => (h.stored x hx).hdrLen

lemma ETblInv.evictedNodes_eq (h : ETblInv s ss T) (limit : Nat) :
    evictedNodes s.tbl limit = (evicted Slot.cost limit ss).map Slot.pos := by
  rw [evictedNodes, h.nodes, evicted_map]
  congr 1
  exact evicted_congr limit fun _ hx => by simp [cost, (h.stored _ hx).hdrLen]

lemma ETblInv.consistent (h : ETblInv s ss T) : ETblConsistent s := by
  have hnodes := h.nodes
  have hroot : s.tbl.root = none ↔ ss = [] := by
    rw [h.tree.root, RbTree.root?_eq_none]
    constructor
    · rintro rfl
      simpa using h.keys.symm.eq_nil
    · rintro rfl
      have hnil : T.toList = [] := h.keys.eq_nil
      cases T with
      | nil => rfl
      | node c l a r => simp at hnil
  refine ⟨fun p => ?_, ?_, ?_, ?_, ?_, h.fits⟩
  · rw [h.tree.reachable_iff, hnodes, h.keys.mem_iff]
  · rw [hroot]
    cases ss with
    | nil =>
      obtain ⟨up, low, p, e1, e2, heq, hring⟩ := h.ring
      rw [append_eq_nil_iff] at heq
      simpa [heq.1] using hring.first
    | cons x xs => simp [h.ring.first]
  · rw [hroot, h.ring.last]
    simp
  · have hentries : ss.map (storedIn s.tbl.toTfwHPackTree ∘ Slot.pos) = ss.map Slot.stored := by
      refine map_congr_left fun x hx => ?_
      simp only [Function.comp_apply, storedIn, Slot.stored, (h.stored x hx).rindex,
        (h.stored x hx).text]
    rw [hnodes, map_map, hentries]
    exact h.recent
  · rw [h.ring.size, hnodes, map_map]
    refine congrArg List.sum (map_congr_left fun x hx => ?_)
    simp [cost, (h.stored x hx).hdrLen]

lemma ETblInv.pos_lt (h : ETblInv s ss T) : ∀ x ∈ ss, x.pos < 512 := fun _ hx =>
  h.tree.bound _ (mem_map_of_mem hx)

lemma ETblInv.clear_apart (h : ETblInv s ss T) (hx : x ∈ ss) :
    ∀ q ∈ ss.map Slot.pos, ClearOf x q := by
  intro q hq
  obtain ⟨y, hy, rfl⟩ := mem_map.mp hq
  by_cases hxy : x = y
  · exact hxy ▸ clearOf_self x
  · exact (h.ring.pairwise.forall hx hy hxy).clearOf

lemma ETblInv.place_at_edge (h : ETblInv s ss T) (len : Nat) (hx : x ∈ ss) :
    x.next ≤ placeBehind s.tbl.toTfwHPackTree s.tbl.last len ∨
      placeBehind s.tbl.toTfwHPackTree s.tbl.last len ≤ x.pos := by
  obtain ⟨l, hl⟩ : ∃ l, ss.getLast? = some l :=
    ⟨_, getLast?_eq_some_getLast (ne_nil_of_mem hx)⟩
  have hmem := mem_of_getLast? hl
  have hlast := h.ring.last
  rw [hl, Option.map_some] at hlast
  simp only [placeBehind, hlast, hpackNodeNext_eq (h.stored l hmem).hdrLen]
  split
  · by_cases hxl : x = l
    · exact .inl (Nat.le_of_eq (congrArg Slot.next hxl))
    · obtain hap | hap := h.ring.pairwise.forall hx hmem hxl
      · exact .inl (hap.trans (Nat.le_add_right _ _))
      · exact .inr hap
  · exact .inr (Nat.zero_le _)

lemma ETblInv.clearOf (h : ETblInv s ss T) (hss : gone ++ rest = ss)
    (hnew : new.pos = placeBehind s.tbl.toTfwHPackTree s.tbl.last (nodeLen new.hdrLen))
    (hgone : ∀ x ∈ gone, new.pos < x.pos → 8 * new.pos + 16 + new.hdrLen ≤ 8 * (x.pos + 1))
    (hrest : ∀ x ∈ rest, Apart new x) (hx : x ∈ ss) : ClearOf new x.pos := by
  have hedge := h.place_at_edge (nodeLen new.hdrLen) hx
  rw [← hnew] at hedge
  rw [← hss] at hx
  obtain hx | hx := mem_append.mp hx
  · have hclear := hgone x hx
    have hw := x.two_le_words
    simp only [ClearOf, Slot.next] at hedge ⊢
    omega
  · exact (hrest x hx).clearOf

/-- The table with the new node in the buffer, before the commit. -/
def written (tbl : TfwHPackETbl) (new : Slot) : TfwHPackETbl :=
  { tbl with
    toTfwHPackTree := writeNode tbl.toTfwHPackTree new.pos new.hdrLen new.rindex new.text
    idxAcc := new.rindex }

variable {e : NodeEntry}

/-- The evictions are planned, and the new node has found its place: the commit
succeeds and restores the invariant. -/
theorem ETblInv.commit (h : ETblInv s ss T) (hss : gone ++ rest = ss)
    (hring : IsRing (it.count new) (rest ++ [new])) (hlast : it.last = some new.pos)
    (hfit : ringCost rest + new.cost ≤ s.tbl.window)
    (hnew : new.pos = placeBehind s.tbl.toTfwHPackTree s.tbl.last (nodeLen new.hdrLen))
    (htext : new.text.length = new.hdrLen)
    (hgone : ∀ x ∈ gone, new.pos < x.pos → 8 * new.pos + 16 + new.hdrLen ≤ 8 * (x.pos + 1))
    (hcmp : gone ≠ [] → ∀ x ∈ rest, (nodeCompare behind s.tbl.toTfwHPackTree hdr x.pos).1 ≠ 0)
    (hplace : IsPlace T place) (hstored : e.stored = new.stored) :
    ∃ tbl' T', tfwHpackRbufCommit behind (written s.tbl new) hdr (gone.map Slot.pos) place
        (it.count new) = some tbl' ∧ tbl'.idxAcc = new.rindex ∧
      ETblInv ⟨tbl', s.added ++ [e]⟩ (rest ++ [new]) T' := by
  have hpair := pairwise_append.mp hring.pairwise
  have hapart : ∀ x ∈ rest, Apart x new := fun x hx => hpair.2.2 x hx new (by simp)
  have hclear : ∀ x ∈ ss, ClearOf new x.pos := fun x hx =>
    h.clearOf hss hnew hgone (fun x hx => symm (hapart x hx)) hx
  have hpos : new.pos < 512 := by
    have hnext := hring.next_le (mem_append_right rest (mem_singleton_self new))
    have hw := new.two_le_words
    simp only [Slot.next] at hnext
    omega
  have hlen : new.hdrLen < 2 ^ 15 := by
    have hwin := h.window_le
    simp only [cost, hpackEncTableMaxSize] at hfit hwin
    omega
  have hposOf : ∀ x ∈ T.toList, ClearOf new x := fun x hx => by
    obtain ⟨y, hy, rfl⟩ := mem_map.mp (h.keys.mem_iff.mp hx)
    exact hclear y hy
  have hsub : ∀ x ∈ rest, x ∈ ss := fun x hx => hss ▸ mem_append_right gone hx
  have hkept : ∀ t', LinksOnly (new.pos :: ss.map Slot.pos) (written s.tbl new).toTfwHPackTree t' →
      ∀ x ∈ rest, StoredAt t' x := by
    intro t' hlinks x hx
    refine ((h.stored x (hsub x hx)).writeNode (hapart x hx) htext).linksOnly hlinks ?_
    intro q hq
    obtain rfl | hq := mem_cons.mp hq
    · exact (hapart x hx).clearOf
    · exact h.clear_apart (hsub x hx) q hq
  have hkeys : T.toList.Perm (gone.map Slot.pos ++ rest.map Slot.pos) := by
    rw [← map_append, hss]
    exact h.keys
  have hfresh : new.pos ∉ rest.map Slot.pos := by
    intro hmem
    obtain ⟨x, hx, heq⟩ := mem_map.mp hmem
    exact (hapart x hx).pos_ne heq
  have htree : TreeAt _ _ (written s.tbl new).toTfwHPackTree T :=
    h.tree.writeNode hposOf htext hpos
  have hcmp' : gone.map Slot.pos ≠ [] → ∀ t',
      LinksOnly (new.pos :: ss.map Slot.pos) (written s.tbl new).toTfwHPackTree t' →
      ∀ x ∈ rest.map Slot.pos, (nodeCompare behind t' hdr x).1 ≠ 0 := by
    intro hne t' hlinks x hx
    obtain ⟨y, hy, rfl⟩ := mem_map.mp hx
    have hold := hcmp (by simpa using hne) y hy
    rw [nodeCompare, (h.stored y (hsub y hy)).text] at hold
    rwa [nodeCompare, (hkept t' hlinks y hy).text]
  obtain ⟨t', T', hrun, hT', hrb', hkeys'⟩ :=
    rbufCommit_spec htree h.rb hkeys (mem_cons_self ..) hfresh
      (show (it.count new).last = some new.pos from hlast) hplace hcmp'
  have hperm : T'.toList.Perm ((rest ++ [new]).map Slot.pos) := by
    rw [map_append]
    exact hkeys'.trans (perm_append_singleton _ _).symm
  refine ⟨_, T', hrun, rfl, ?_⟩
  exact {
    ring := hring
    tree := hT'.rebase (fun a ha => hperm.mem_iff.mp ha) fun a ha => by
      obtain ⟨x, hx, rfl⟩ := mem_map.mp ha
      obtain hx | hx := mem_append.mp hx
      · exact h.pos_lt x (hsub x hx)
      · exact mem_singleton.mp hx ▸ hpos
    rb := hrb'
    keys := hperm
    stored := fun x hx => by
      obtain hx | hx := mem_append.mp hx
      · exact hkept t' hT'.data x hx
      · rw [mem_singleton.mp hx]
        refine (storedAt_writeNode hlen htext).linksOnly hT'.data fun q hq => ?_
        obtain rfl | hq := mem_cons.mp hq
        · exact clearOf_self new
        · obtain ⟨y, hy, rfl⟩ := mem_map.mp hq
          exact hclear y hy
    recent := by
      obtain ⟨elder, helder⟩ := h.recent
      refine ⟨elder ++ gone.map Slot.stored, ?_⟩
      have hadded : (s.added ++ [e]).map NodeEntry.stored =
          elder ++ ss.map Slot.stored ++ [new.stored] := by
        rw [map_append, ← helder, map_singleton, hstored]
      rw [hadded, ← hss]
      simp
    fits := by
      rw [hring.size, ringCost_snoc]
      exact hfit
    window_le := h.window_le }

/-- What adding a node comes to: an error, or a table with the invariant. -/
def AddOutcome (s : ETblRun) (name value : List UInt8)
    (r : Option (Except Errno TfwHPackETbl)) : Prop :=
  (∃ e, r = some (.error e)) ∨
  ∃ tbl' ss' T', r = some (.ok tbl') ∧
    ETblInv ⟨tbl', s.added ++ [⟨tbl'.idxAcc, name, value⟩]⟩ ss' T' ∧ ss' ≠ []

lemma ETblInv.addPlanned (h : ETblInv s ss T) (hss : gone ++ rest = ss) (hring : IsRing it rest)
    (hlast : it.last = s.tbl.last)
    (hfit : ringCost rest + (hpackEntryOverhead + len) ≤ s.tbl.window)
    (htext : (name ++ value).length = len)
    (hgone : ∀ x ∈ gone, placeBehind s.tbl.toTfwHPackTree s.tbl.last (nodeLen len) < x.pos →
      8 * placeBehind s.tbl.toTfwHPackTree s.tbl.last (nodeLen len) + 16 + len ≤ 8 * (x.pos + 1))
    (hcmp : gone ≠ [] → ∀ x ∈ rest, (nodeCompare behind s.tbl.toTfwHPackTree hdr x.pos).1 ≠ 0)
    (hplace : IsPlace T place) :
    AddOutcome s name value
      (addPlanned behind s.tbl hdr place len (name ++ value) it (gone.map Slot.pos)) := by
  let new : Slot :=
    ⟨placeBehind s.tbl.toTfwHPackTree s.tbl.last (nodeLen len), len, s.tbl.idxAcc + 1,
      name ++ value⟩
  have hstored : ∀ x ∈ rest, s.tbl.hdrLen x.pos = x.hdrLen := fun x hx =>
    (h.stored x (hss ▸ mem_append_right gone hx)).hdrLen
  have hnew : new.pos = placeBehind s.tbl.toTfwHPackTree it.last (nodeLen new.hdrLen) := by
    rw [hlast]
  have hcost : ringCost rest + new.cost ≤ s.tbl.window := hfit
  obtain hnone | ⟨⟨first, last, rbLen, rbSize, size⟩, hsome, hlast', hring'⟩ :=
    rbufPlace_spec hring hstored (hcost.trans h.window_le) hnew
  · refine .inl ⟨.e2big, ?_⟩
    have hnone : rbufPlace s.tbl.toTfwHPackTree it (nodeLen len) = some none := hnone
    simp [Hpack.addPlanned, hnone]
  · obtain rfl : last = some new.pos := hlast'
    obtain ⟨tbl', T', hrun, hidx, hinv⟩ :=
      h.commit hss hring' rfl hcost rfl htext hgone hcmp hplace
        (show (⟨s.tbl.idxAcc + 1, name, value⟩ : NodeEntry).stored = new.stored from rfl)
    refine .inr ⟨tbl', rest ++ [new], T', ?_, ?_, by simp⟩
    · have hsome : rbufPlace s.tbl.toTfwHPackTree it (nodeLen len) =
          some (some ⟨first, some new.pos, rbLen, rbSize, size⟩) := hsome
      simp only [Hpack.addPlanned, hsome, Option.bind_eq_bind, Option.bind_some]
      exact congrArg (fun r => Option.bind r fun tbl => some (Except.ok tbl)) hrun
    · rw [hidx]
      exact hinv

lemma ETblInv.addNode (h : ETblInv s ss T) (hsafe : StepSafe s (.addNode hdr op behind))
    (hplace : IsPlace T place) :
    AddOutcome s (tfwHttpHdrSplit hdr (op = .inplace)).1
      (tfwHttpHdrSplit hdr (op = .inplace)).2.1 (tfwHpackAddNode behind s.tbl hdr place op) := by
  simp only [StepSafe, tfwHpackAddNode] at hsafe ⊢
  generalize tfwHttpHdrSplit hdr (op = .inplace) = split at hsafe ⊢
  obtain ⟨name, value, len⟩ := split
  simp only at hsafe ⊢
  by_cases hbig : s.tbl.window < len + hpackEntryOverhead
  · exact .inl ⟨.e2big, if_pos hbig⟩
  obtain ⟨htext, hsafe⟩ := hsafe (Nat.le_of_not_lt hbig)
  have hsize := h.ring.size
  have hfits := h.fits
  have hwin := h.window_le
  have hstored : ∀ x ∈ ss, s.tbl.hdrLen x.pos = x.hdrLen := fun x hx => (h.stored x hx).hdrLen
  simp only [hpackEncTableMaxSize] at hwin
  rw [if_neg hbig, Nat.mod_eq_of_lt (by omega)]
  by_cases hover : s.tbl.window < s.tbl.size + (len + hpackEntryOverhead)
  · rw [if_pos hover]
    have hlimit : s.tbl.window - (len + hpackEntryOverhead) < ringCost ss := by omega
    have hcalc := rbufCalc_collect h.ring hstored hlimit
    have hgone := h.evictedNodes_eq (s.tbl.window - (len + hpackEntryOverhead))
    have happ := evicted_append_drop cost (s.tbl.window - (len + hpackEntryOverhead)) ss
    have hle := sum_drop_evicted_le cost (s.tbl.window - (len + hpackEntryOverhead)) ss
    generalize evicted cost (s.tbl.window - (len + hpackEntryOverhead)) ss = gone at *
    by_cases hmany : hpackMaxEncEviction < gone.length
    · exact .inl ⟨.e2big, by rw [hcalc.1 hmany]; rfl⟩
    · have hfew := Nat.le_of_not_lt hmany
      obtain ⟨hall, hclear, hcmp⟩ := hsafe hover (by rwa [hgone, length_map])
      rw [hgone] at hall hclear hcmp
      rw [h.nodes] at hall hcmp
      rw [length_map, ← map_drop] at hcmp
      obtain ⟨it, hrun, hring⟩ := hcalc.2 hfew fun heq => hall (by rw [heq])
      have hrest : ss.drop gone.length ≠ [] := fun hnil => by
        rw [hnil, append_nil] at happ
        exact hall (by rw [happ])
      have hlast : it.last = s.tbl.last := by
        rw [hring.last, h.ring.last, ← getLast?_append_of_ne_nil gone hrest, happ]
      have hfit : ringCost (ss.drop gone.length) + (hpackEntryOverhead + len) ≤ s.tbl.window := by
        rw [ringCost]
        omega
      rw [hrun]
      exact h.addPlanned happ hring hlast hfit htext
        (fun x hx => hclear x.pos (mem_map_of_mem hx))
        (fun _ x hx => hcmp x.pos (mem_map_of_mem hx)) hplace
  · rw [if_neg hover]
    exact h.addPlanned (nil_append ss) h.ring rfl (by omega) htext (by simp) (by simp) hplace

lemma ETblInv.setRbufSize (h : ETblInv s ss T) (hsafe : StepSafe s (.setRbufSize newSize)) :
    ∃ tbl' ss' T', tfwHpackSetRbufSize s.tbl newSize.toNat = some tbl' ∧
      ETblInv { s with tbl := tbl' } ss' T' := by
  simp only [tfwHpackSetRbufSize]
  by_cases hbig : hpackEncTableMaxSize < newSize.toNat
  · exact ⟨s.tbl, ss, T, if_pos hbig, h⟩
  rw [if_neg hbig]
  by_cases hshrink : newSize.toNat < s.tbl.window
  · rw [if_pos hshrink]
    have hwin := Nat.le_of_not_lt hbig
    by_cases hover : newSize.toNat < s.tbl.size
    · have hall := hsafe hshrink hover
      rw [h.evictedNodes_eq, h.nodes] at hall
      rw [if_pos hover]
      rw [h.ring.size] at hover
      obtain ⟨it, t', T', hrun, hring, hT', hrb, hkeys⟩ := rbufCalc_erase h.ring h.tree h.rb h.keys
        (fun x hx => (h.stored x hx).hdrLen) hover fun heq => hall (by rw [heq])
      have hsub : ∀ x ∈ ss.drop (evicted cost newSize.toNat ss).length, x ∈ ss := fun x hx =>
        mem_of_mem_drop hx
      refine ⟨_, ss.drop (evicted cost newSize.toNat ss).length, T', by rw [hrun]; rfl, ?_⟩
      exact {
        ring := hring
        tree := hT'.rebase (fun a ha => hkeys.mem_iff.mp ha) fun a ha => by
          obtain ⟨x, hx, rfl⟩ := mem_map.mp ha
          exact h.pos_lt x (hsub x hx)
        rb := hrb
        keys := hkeys
        stored := fun x hx =>
          (h.stored x (hsub x hx)).linksOnly hT'.data (h.clear_apart (hsub x hx))
        recent := by
          rw [map_drop]
          exact (drop_suffix _ _).trans h.recent
        fits := by
          rw [hring.size]
          exact sum_drop_evicted_le cost _ ss
        window_le := hwin }
    · rw [if_neg hover]
      exact ⟨_, ss, T, rfl, { h with fits := Nat.le_of_not_lt hover, window_le := hwin }⟩
  · rw [if_neg hshrink]
    exact ⟨s.tbl, ss, T, rfl, h⟩

lemma etblStep_inv (op : ETblOp) (h : ∃ ss T, ETblInv s ss T) (hsafe : StepSafe s op) :
    ∃ s', etblStep s op = some s' ∧ ∃ ss' T', ETblInv s' ss' T' := by
  obtain ⟨ss, T, h⟩ := h
  cases op with
  | addNode hdr op behind =>
    obtain ⟨⟨res, node, place⟩, hfind, hout⟩ := rbtreeFind_spec behind hdr ⟨none, .left⟩ h.tree
    simp only [etblStep, hfind, Option.bind_eq_bind, Option.bind_some]
    by_cases hres : res = .found
    · exact ⟨s, if_pos hres, ss, T, h⟩
    rw [if_neg hres]
    obtain ⟨e, herr⟩ | ⟨tbl', ss', T', hok, hinv, -⟩ := h.addNode hsafe (hout.isPlace hres)
    · exact ⟨s, by rw [herr]; rfl, ss, T, h⟩
    · exact ⟨_, by rw [hok]; rfl, ss', T', hinv⟩
  | setRbufSize newSize =>
    obtain ⟨tbl', ss', T', hrun, hinv⟩ := h.setRbufSize hsafe
    exact ⟨_, by simp only [etblStep, hrun]; rfl, ss', T', hinv⟩

lemma etblInit_inv (rbuf : Nat → Word) : ETblInv (etblInit rbuf) [] .nil where
  ring := ⟨[], [], 0, 0, 0, rfl, {
    up_nil := fun _ => rfl
    up_at := rfl
    low_at := rfl
    low_le := Nat.le_refl 0
    up_le := Nat.zero_le _
    first := rfl
    last := rfl
    rbSize := rfl
    rbLen := rfl
    size := rfl
    size_le := Nat.zero_le _ }⟩
  tree := {
    root := rfl
    rep := trivial
    nodup := nodup_nil
    sub := by simp
    bound := by simp
    data := .refl _ _ }
  rb := ⟨rfl, 0, rfl⟩
  keys := .refl _
  stored := by simp
  recent := suffix_refl _
  fits := Nat.zero_le _
  window_le := Nat.le_refl _

end Invariant

/-- Along every run of safe steps the tree and the ring agree. -/
theorem etbl_run_consistent (rbuf : Nat → Word) (ops : List ETblOp)
    (hsafe : Guarded etblStep StepSafe (etblInit rbuf) ops) :
    ∃ s, ops.foldlM etblStep (etblInit rbuf) = some s ∧ ETblConsistent s := by
  obtain ⟨s, hrun, ss, T, h⟩ := Guarded.invariant (fun _ op => etblStep_inv op)
    ⟨[], .nil, etblInit_inv rbuf⟩ hsafe
  exact ⟨s, hrun, h.consistent⟩

/-- Adding a header with a name and a value of one byte. -/
def addShortNode (name value : UInt8) : ETblOp :=
  .addNode ⟨[⟨[name], false⟩, ⟨ofAscii ":", false⟩, ⟨ofAscii " ", true⟩, ⟨[value], false⟩]⟩ .inplace
    fun _ _ => 0

def evictingRun : List ETblOp :=
  [addShortNode 0x61 0x62, addShortNode 0x63 0x64, .setRbufSize 80, addShortNode 0x65 0x66]

theorem etbl_run_consistent_evicting :
    ∃ s, evictingRun.foldlM etblStep (etblInit fun _ => .ofUInt64 0) = some s ∧
      ETblConsistent s :=
  etbl_run_consistent (fun _ => .ofUInt64 0) evictingRun (by decide +kernel)

/-- A size below that of the only node: the ring becomes empty, and the node
stays in the tree. -/
def shrunkRun : List ETblOp := [addShortNode 0x61 0x62, .setRbufSize 32]

theorem shrunkRun_not_consistent :
    ∃ s, shrunkRun.foldlM etblStep (etblInit fun _ => .ofUInt64 0) = some s ∧
      ¬ ETblConsistent s := by
  have hrun : (shrunkRun.foldlM etblStep (etblInit fun _ => .ofUInt64 0)).map
      (fun s => (s.tbl.root, s.tbl.first)) = some (some 0, none) := by decide +kernel
  obtain ⟨s, hs, hpair⟩ := Option.map_eq_some_iff.mp hrun
  have hroot : s.tbl.root = some 0 := congrArg Prod.fst hpair
  have hfirst : s.tbl.first = none := congrArg Prod.snd hpair
  refine ⟨s, hs, fun h => ?_⟩
  rw [h.empty_first.mpr hfirst] at hroot
  cases hroot

end Tempesta.Hpack
