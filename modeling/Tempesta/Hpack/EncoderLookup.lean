import Tempesta.Hpack.EncoderFind
import Tempesta.Hpack.EncoderTreeIns

/-!
`tfw_hpack_rbtree_find` on the tree in the buffer. The search always ends: with
a node that compares as equal, or with a place for a new node and possibly a
node whose name was recognised on the way.
-/

namespace Tempesta.Hpack
open RbLib

/-- The comparison of a header with a node of the buffer. -/
def nodeCompare (behind : Nat → Nat → UInt8) (t : TfwHPackTree) (hdr : TfwStr) (p : Nat) :
    Int × Bool :=
  tfwHpackNodeCompare behind hdr (t.hdrText p)

inductive FindOutcome (cmp : Nat → Int × Bool) (T : RbTree Nat) (place : TfwHPackNodeIter) :
    TfwHPackETblRes × Option Nat × TfwHPackNodeIter → Prop
  | found (a : Nat) (hmem : a ∈ T.toList) (hcmp : (cmp a).1 = 0) :
      FindOutcome cmp T place (.found, some a, place)
  | nmFound (a : Nat) (it : TfwHPackNodeIter) (hmem : a ∈ T.toList) (hcmp : (cmp a).2 = true)
      (hplace : IsPlace T it) : FindOutcome cmp T place (.nmFound, some a, it)
  | notFound (it : TfwHPackNodeIter) (hplace : IsPlace T it) :
      FindOutcome cmp T place (.notFound, none, it)

variable {base t : TfwHPackTree} {S : List Nat} {behind : Nat → Nat → UInt8} {hdr : TfwStr}
  {place here : TfwHPackNodeIter} {nm : Option Nat} {ctx : Ctx Nat} {fuel a : Nat} {c : Color}
  {x y T : RbTree Nat} {d : Dir}

lemma findLoop_node (h : TreeAt base S t (plug ctx (RbTree.mk d c x a y)))
    (hres : (d = .left ∧ (nodeCompare behind t hdr a).1 < 0) ∨
      (d = .right ∧ 0 < (nodeCompare behind t hdr a).1)) :
    findLoop behind t hdr (fuel + 1) (some a) here nm place =
      findLoop behind t hdr fuel x.root? ⟨some a, d⟩
        (if nm.isNone ∧ (nodeCompare behind t hdr a).2 then some a else nm) place := by
  have hkid := h.kid_eq
  obtain ⟨rfl, hres⟩ | ⟨rfl, hres⟩ := hres
  · simp only [nodeCompare] at hres ⊢
    simp [findLoop, hres, hkid]
  · simp only [nodeCompare] at hres ⊢
    have hnot : ¬ (tfwHpackNodeCompare behind hdr (t.hdrText a)).1 < 0 := by omega
    simp [findLoop, hres, hnot, hkid]

lemma findLoop_spec (h : TreeAt base S t (plug ctx T)) (hfuel : T.toList.length < fuel)
    (hhere : here.parent = parentOf ctx) (hdir : ∀ f ∈ ctx.head?, here.poff = f.dir)
    (hnm : ∀ a ∈ nm, a ∈ (plug ctx T).toList ∧ (nodeCompare behind t hdr a).2 = true) :
    ∃ r, findLoop behind t hdr fuel T.root? here nm place = some r ∧
      FindOutcome (nodeCompare behind t hdr) (plug ctx T) place r := by
  induction T generalizing ctx fuel here nm with
  | nil =>
    obtain ⟨fuel, rfl⟩ := Nat.exists_eq_succ_of_ne_zero (Nat.ne_of_gt hfuel)
    have hplace : IsPlace (plug ctx .nil) here := ⟨ctx, rfl, hhere, hdir⟩
    refine ⟨_, rfl, ?_⟩
    cases nm with
    | none => exact .notFound here hplace
    | some a => exact .nmFound a here (hnm a rfl).1 (hnm a rfl).2 hplace
  | node c l a r ihl ihr =>
    obtain ⟨fuel, rfl⟩ := Nat.exists_eq_succ_of_ne_zero (Nat.ne_of_gt (Nat.zero_lt_of_lt hfuel))
    simp only [RbTree.toList, List.length_append, List.length_cons] at hfuel
    have hmem : a ∈ (plug ctx (.node c l a r)).toList := mem_plug.mpr (.inl (by simp))
    have hnm' : ∀ b ∈ (if nm.isNone ∧ (nodeCompare behind t hdr a).2 then some a else nm),
        b ∈ (plug ctx (.node c l a r)).toList ∧ (nodeCompare behind t hdr b).2 = true := by
      intro b hb
      split at hb
      · next hnew =>
          cases hb
          exact ⟨hmem, hnew.2⟩
      · exact hnm b hb
    obtain hlt | heq | hgt := Int.lt_trichotomy (nodeCompare behind t hdr a).1 0
    · have hl : TreeAt base S t (plug (⟨.left, c, a, r⟩ :: ctx) l) := h
      have hrun : findLoop behind t hdr (fuel + 1) (some a) here nm place =
          findLoop behind t hdr fuel l.root? ⟨some a, .left⟩ _ place :=
        findLoop_node h (.inl ⟨rfl, hlt⟩)
      obtain ⟨res, hloop, hout⟩ := ihl hl (show l.toList.length < fuel by omega)
        (show (⟨some a, .left⟩ : TfwHPackNodeIter).parent = _ from rfl)
        (fun f hf => by cases hf; rfl) hnm'
      exact ⟨res, hrun.trans hloop, hout⟩
    · refine ⟨(.found, some a, place), ?_, .found a hmem heq⟩
      simp only [nodeCompare] at heq
      simp [findLoop, heq]
    · have hr : TreeAt base S t (plug (⟨.right, c, a, l⟩ :: ctx) r) := h
      have hrun : findLoop behind t hdr (fuel + 1) (some a) here nm place =
          findLoop behind t hdr fuel r.root? ⟨some a, .right⟩ _ place :=
        findLoop_node hr (.inr ⟨rfl, hgt⟩)
      obtain ⟨res, hloop, hout⟩ := ihr hr (show r.toList.length < fuel by omega)
        (show (⟨some a, .right⟩ : TfwHPackNodeIter).parent = _ from rfl)
        (fun f hf => by cases hf; rfl) hnm'
      exact ⟨res, hrun.trans hloop, hout⟩

lemma rbtreeFind_spec (behind : Nat → Nat → UInt8) (hdr : TfwStr) (place : TfwHPackNodeIter)
    (h : TreeAt base S t T) :
    ∃ r, tfwHpackRbtreeFind behind t hdr place = some r ∧
      FindOutcome (nodeCompare behind t hdr) T place r := by
  have hlen := h.length_le
  rw [tfwHpackRbtreeFind, h.root]
  refine findLoop_spec (show TreeAt base S t (plug [] T) from h) ?_ rfl (fun f hf => by cases hf)
    (fun a ha => by cases ha)
  simp only [rbtreeFuel]
  omega

end Tempesta.Hpack
