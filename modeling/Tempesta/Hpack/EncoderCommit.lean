import Tempesta.Hpack.EncoderLookup
import Tempesta.Hpack.EncoderTreeErase
import Tempesta.Hpack.EncoderWrite

/-!
The tree and the ring together: what evicting nodes, writing a node and
committing it do to the tree, seen from the nodes of the ring.
-/

namespace Tempesta.Hpack
open RbLib EvictLib Option RbTree TfwHPackTree

/-- The nodes that can be reached from the root through the offsets. -/
inductive Reachable (t : TfwHPackTree) : Nat → Prop
  | root {p : Nat} (h : t.root = some p) : Reachable t p
  | kid {p q : Nat} (d : Dir) (hp : Reachable t p)
      (h : hpackNodeCond (t.kid d p) = some (some q)) : Reachable t q

variable {base t t' : TfwHPackTree} {S gone rest S' : List Nat} {T : RbTree Nat} {ctx : Ctx Nat}
  {a limit : Nat} {it : TfwHPackETblIter} {ss : List Slot} {last new s s' : Slot}
  {cmp : Nat → Int × Bool} {behind : Nat → Nat → UInt8} {tbl : TfwHPackETbl}
  {r : TfwHPackETblRes × Option Nat × TfwHPackNodeIter} {place : TfwHPackNodeIter} {hdr : TfwStr}

lemma TreeAt.reachable_plug (h : TreeAt base S t (plug ctx T))
    (hroot : ∀ r, T.root? = some r → Reachable t r) : ∀ a ∈ T.toList, Reachable t a := by
  induction T generalizing ctx with
  | nil => simp
  | node c l r x ihl ihx =>
    have hr := hroot r rfl
    have hl : TreeAt base S t (plug ctx (RbTree.mk .left c l r x)) := h
    have hx : TreeAt base S t (plug ctx (RbTree.mk .right c x r l)) := h
    have hleft := ihl (show TreeAt base S t (plug (⟨.left, c, r, x⟩ :: ctx) l) from h)
      fun k hk => .kid .left hr (by rw [hl.kid_eq, hk])
    have hright := ihx (show TreeAt base S t (plug (⟨.right, c, r, l⟩ :: ctx) x) from h)
      fun k hk => .kid .right hr (by rw [hx.kid_eq, hk])
    intro a ha
    simp only [RbTree.toList, List.mem_append, List.mem_cons] at ha
    obtain ha | rfl | ha := ha
    · exact hleft a ha
    · exact hr
    · exact hright a ha

lemma TreeAt.mem_of_reachable (h : TreeAt base S t T) (ha : Reachable t a) : a ∈ T.toList := by
  induction ha with
  | root hr => exact mem_toList_of_root? (h.root ▸ hr)
  | @kid p q d _ hq ih =>
    obtain ⟨ctx, c, l, r, rfl⟩ := exists_plug_of_mem ih
    have hkid : ∃ x : RbTree Nat, hpackNodeCond (t.kid d p) = some x.root? ∧
        ∀ b ∈ x.toList, b ∈ (plug ctx (.node c l p r)).toList := by
      cases d with
      | left =>
        exact ⟨l, TreeAt.kid_eq (show TreeAt base S t (plug ctx (RbTree.mk .left c l p r)) from h),
          fun b hb => mem_plug.mpr (.inl (by simp [hb]))⟩
      | right =>
        exact ⟨r, TreeAt.kid_eq (show TreeAt base S t (plug ctx (RbTree.mk .right c r p l)) from h),
          fun b hb => mem_plug.mpr (.inl (by simp [hb]))⟩
    obtain ⟨x, hx, hsub⟩ := hkid
    rw [hx] at hq
    exact hsub q (mem_toList_of_root? (Option.some.inj hq))

lemma TreeAt.reachable_iff (h : TreeAt base S t T) : Reachable t a ↔ a ∈ T.toList :=
  ⟨h.mem_of_reachable, TreeAt.reachable_plug (show TreeAt base S t (plug [] T) from h)
    (fun _ hr => .root (h.root.trans hr)) a⟩

lemma eraseAll_spec (h : TreeAt base S t T) (hrb : RbInv T)
    (hkeys : T.toList.Perm (gone ++ rest)) :
    ∃ t' T', gone.foldlM tfwHpackRbtreeErase t = some t' ∧ TreeAt base S t' T' ∧ RbInv T' ∧
      T'.toList.Perm rest := by
  induction gone generalizing t T with
  | nil => exact ⟨t, T, rfl, h, hrb, hkeys⟩
  | cons a gone ih =>
    have ha : a ∈ T.toList := hkeys.mem_iff.mpr (by simp)
    obtain ⟨t1, T1, xs, ys, hrun, hT1, hlist, hlist1, hrb1⟩ := rbtreeErase_spec h hrb ha
    have hperm : T1.toList.Perm (gone ++ rest) := by
      rw [hlist1]
      rw [hlist] at hkeys
      exact (List.perm_middle.symm.trans hkeys).cons_inv
    obtain ⟨t', T', hfold, hT', hrb', hkeys'⟩ := ih hT1 hrb1 hperm
    refine ⟨t', T', ?_, hT', hrb', hkeys'⟩
    simp only [List.foldlM_cons, hrun]
    exact hfold

lemma TreeAt.hdrLen_eq (h : TreeAt base S t T) (p : Nat) : t.hdrLen p = base.hdrLen p :=
  congrArg BitVec.toNat (h.data.hdrLen (p + 1))

/-- Without a list the loop of `tfw_hpack_rbuf_calc` erases the nodes at once. -/
theorem rbufCalcLoop_erase (fuel : Nat) (hring : IsRing it ss) (h : TreeAt base S t T)
    (hrb : RbInv T) (hkeys : T.toList.Perm (ss.map Slot.pos))
    (hbase : ∀ s ∈ ss, base.hdrLen s.pos = s.hdrLen) (hlast : ss.getLast? = some last)
    (hlimit : limit < ringCost ss) (hfuel : ss.length ≤ fuel)
    (hall : evicted Slot.cost limit ss ≠ ss) :
    ∃ it' t' T', rbufCalcLoop limit false last.pos (8 * last.words) fuel t it [] =
        some (.ok (t', it', [])) ∧
      IsRing it' (ss.drop (evicted Slot.cost limit ss).length) ∧ TreeAt base S t' T' ∧ RbInv T' ∧
      T'.toList.Perm ((ss.drop (evicted Slot.cost limit ss).length).map Slot.pos) := by
  induction ss generalizing it t T fuel with
  | nil => cases hlast
  | cons s ss ih =>
    obtain ⟨fuel, rfl⟩ : ∃ n, fuel = n + 1 := ⟨fuel - 1, by simp at hfuel; omega⟩
    have hgone : evicted Slot.cost limit (s :: ss) = s :: evicted Slot.cost limit ss := by
      exact if_pos hlimit
    rw [hgone] at hall ⊢
    cases ss with
    | nil => exact absurd rfl hall
    | cons s' rest =>
      rw [List.getLast?_cons_cons] at hlast
      have hdrop := hring.dropFirst hlast ((h.hdrLen_eq s.pos).trans (hbase s (by simp)))
      have hs : s.pos ∈ T.toList := hkeys.mem_iff.mpr (by simp)
      obtain ⟨t1, T1, xs, ys, herase, hT1, hlist, hlist1, hrb1⟩ := rbtreeErase_spec h hrb hs
      have hkeys1 : T1.toList.Perm ((s' :: rest).map Slot.pos) := by
        rw [hlist1]
        rw [hlist] at hkeys
        exact (List.perm_middle.symm.trans hkeys).cons_inv
      rw [rbufCalcLoop, hring.first]
      simp only [List.length_nil, hpackMaxEncEviction, bind_eq_bind, bind_some,
        Bool.false_eq_true, if_false, herase, List.length_cons, List.drop_succ_cons]
      rw [if_neg (by omega), if_neg (hring.last_ne hlast), hdrop.size]
      by_cases hmore : limit < ringCost (s' :: rest)
      · rw [if_pos hmore]
        exact ih fuel hdrop hT1 hrb1 hkeys1 (fun x hx => hbase x (List.mem_cons_of_mem s hx))
          hlast hmore (Nat.le_of_succ_le_succ hfuel) (fun heq => hall (by rw [heq]))
      · rw [if_neg hmore]
        have hnone : evicted Slot.cost limit (s' :: rest) = [] := by
          exact if_neg hmore
        rw [hnone]
        exact ⟨_, t1, T1, rfl, hdrop, hT1, hrb1, hkeys1⟩

lemma rbufCalc_erase (hring : IsRing it ss) (h : TreeAt base S t T) (hrb : RbInv T)
    (hkeys : T.toList.Perm (ss.map Slot.pos)) (hbase : ∀ s ∈ ss, base.hdrLen s.pos = s.hdrLen)
    (hlimit : limit < ringCost ss) (hall : evicted Slot.cost limit ss ≠ ss) :
    ∃ it' t' T', tfwHpackRbufCalc t limit false it = some (.ok (t', it', [])) ∧
      IsRing it' (ss.drop (evicted Slot.cost limit ss).length) ∧ TreeAt base S t' T' ∧ RbInv T' ∧
      T'.toList.Perm ((ss.drop (evicted Slot.cost limit ss).length).map Slot.pos) := by
  obtain ⟨l, hl⟩ := IsRing.exists_last hlimit
  have hfuel : ss.length ≤ rbtreeFuel := hring.length_le.trans (by decide)
  rw [rbufCalc_eq hring (fun s hs => (h.hdrLen_eq s.pos).trans (hbase s hs)) hl]
  exact rbufCalcLoop_erase rbtreeFuel hring h hrb hkeys hbase hl hlimit hfuel hall

/-- Where a new node may go without touching the links of the node at `x`. -/
def ClearOf (new : Slot) (x : Nat) : Prop :=
  x + 2 ≤ new.pos ∨ x = new.pos ∨ 8 * new.pos + 16 + new.hdrLen ≤ 8 * (x + 1)

lemma TreeAt.writeNode (h : TreeAt t S t T) (hclear : ∀ x ∈ T.toList, ClearOf new x)
    (htext : new.text.length = new.hdrLen) (hpos : new.pos < 512) :
    TreeAt (writeNode t new.pos new.hdrLen new.rindex new.text) (new.pos :: S)
      (writeNode t new.pos new.hdrLen new.rindex new.text) T := by
  have hlinks : ∀ x ∈ T.toList,
      (Hpack.writeNode t new.pos new.hdrLen new.rindex new.text).links x = t.links x := by
    intro x hx
    have hc := hclear x hx
    by_cases hxy : x = new.pos
    · subst hxy
      simp only [TfwHPackTree.links, TfwHPackTree.color, TfwHPackTree.parent, TfwHPackTree.kid,
        rbuf_writeNode_head]
    · have hword : (Hpack.writeNode t new.pos new.hdrLen new.rindex new.text).rbuf (x + 1) =
          t.rbuf (x + 1) := by
        simp only [ClearOf] at hc
        exact rbuf_writeNode t new.rindex (by omega)
      simp only [TfwHPackTree.links, TfwHPackTree.color, TfwHPackTree.parent, TfwHPackTree.kid,
        hword]
  exact {
    root := (root_writeNode t new.rindex).trans h.root
    rep := h.rep.congr hlinks
    nodup := h.nodup
    sub := fun a ha => List.mem_cons_of_mem _ (h.sub a ha)
    bound := fun a ha => by
      obtain rfl | ha := List.mem_cons.mp ha
      · exact hpos
      · exact h.bound a ha
    data := .refl _ _ }

lemma TreeAt.rebase (h : TreeAt base S t T) (hsub : ∀ a ∈ T.toList, a ∈ S')
    (hbound : ∀ a ∈ S', a < 512) : TreeAt t S' t T where
  root := h.root
  rep := h.rep
  nodup := h.nodup
  sub := hsub
  bound := hbound
  data := .refl _ _

lemma StoredAt.linksOnly (h : StoredAt t s) (hl : LinksOnly S t t')
    (hclear : ∀ x ∈ S, ClearOf s x) : StoredAt t' s := by
  refine h.congr (hl.hdrLen _) (hl.word _ fun x hx => ?_) fun i hlo hhi => hl.word i fun x hx => ?_
  · have := hclear x hx
    simp only [ClearOf] at this
    omega
  · have := hclear x hx
    simp only [ClearOf] at this
    omega

lemma Apart.clearOf (h : Apart s s') : ClearOf s s'.pos := by
  have hs := s.hdrLen_le_words
  have hs' := s'.two_le_words
  simp only [Apart, Slot.next] at h
  simp only [ClearOf]
  omega

lemma clearOf_self (s : Slot) : ClearOf s s.pos := .inr (.inl rfl)

lemma FindOutcome.isPlace (h : FindOutcome cmp T place r) (hr : r.1 ≠ .found) :
    IsPlace T r.2.2 := by
  cases h with
  | found a hmem hcmp => exact absurd rfl hr
  | nmFound a it hmem hcmp hplace => exact hplace
  | notFound it hplace => exact hplace

lemma FindOutcome.isPlace_of_ne (h : FindOutcome cmp T place r)
    (hcmp : ∀ a ∈ T.toList, (cmp a).1 ≠ 0) : IsPlace T r.2.2 := by
  cases h with
  | found a hmem heq => exact absurd heq (hcmp a hmem)
  | nmFound a it hmem hnm hplace => exact hplace
  | notFound it hplace => exact hplace

/-- `tfw_hpack_rbuf_commit`: the evicted nodes leave the tree, the new one
enters it, and the iterator becomes the state of the ring. -/
theorem rbufCommit_spec {new : Nat} (h : TreeAt base S tbl.toTfwHPackTree T) (hrb : RbInv T)
    (hkeys : T.toList.Perm (gone ++ rest)) (hS : new ∈ S) (hnew : new ∉ rest)
    (hlast : it.last = some new) (hplace : IsPlace T place)
    (hcmp : gone ≠ [] → ∀ t', LinksOnly S base t' →
      ∀ x ∈ rest, (nodeCompare behind t' hdr x).1 ≠ 0) :
    ∃ t' T', tfwHpackRbufCommit behind tbl hdr gone place it =
        some { tbl with toTfwHPackTree := t', toTfwHPackETblIter := it } ∧
      TreeAt base S t' T' ∧ RbInv T' ∧ T'.toList.Perm (new :: rest) := by
  obtain ⟨t1, T1, place', hfold, hfind, hT1, hrb1, hkeys1, hplace'⟩ : ∃ t1 T1 place',
      gone.foldlM tfwHpackRbtreeErase tbl.toTfwHPackTree = some t1 ∧
      (if gone ≠ [] then (tfwHpackRbtreeFind behind t1 hdr place).bind fun r => some r.2.2
        else some place) = some place' ∧
      TreeAt base S t1 T1 ∧ RbInv T1 ∧ T1.toList.Perm rest ∧ IsPlace T1 place' := by
    by_cases hgone : gone = []
    · subst hgone
      exact ⟨_, T, place, rfl, if_neg (by simp), h, hrb, hkeys, hplace⟩
    · obtain ⟨t1, T1, hfold, hT1, hrb1, hkeys1⟩ := eraseAll_spec h hrb hkeys
      obtain ⟨r, hrun, hout⟩ := rbtreeFind_spec behind hdr place hT1
      have hne : ∀ a ∈ T1.toList, (nodeCompare behind t1 hdr a).1 ≠ 0 := fun a ha =>
        hcmp hgone t1 hT1.data a (hkeys1.mem_iff.mp ha)
      refine ⟨t1, T1, r.2.2, hfold, ?_, hT1, hrb1, hkeys1, hout.isPlace_of_ne hne⟩
      rw [if_pos hgone, hrun, bind_some]
  have hnew1 : new ∉ T1.toList := fun hmem => hnew (hkeys1.mem_iff.mp hmem)
  obtain ⟨t2, T2, hadd, hT2, hkeys2, hrb2⟩ := rbtreeAdd_spec hT1 hrb1 hplace' hS hnew1
  refine ⟨t2, T2, ?_, hT2, hrb2, hkeys2.perm.trans (hkeys1.cons new)⟩
  simp only [tfwHpackRbufCommit, hfold, bind_eq_bind, bind_some, hlast]
  split
  · next hgone =>
      rw [if_pos hgone] at hfind
      obtain ⟨r, hr, hp⟩ := Option.bind_eq_some_iff.mp hfind
      cases hp
      rw [hr, bind_some, hadd, bind_some]
  · next hgone =>
      rw [if_neg hgone] at hfind
      cases hfind
      rw [hadd, bind_some]

end Tempesta.Hpack
