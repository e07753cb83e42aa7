import Tempesta.Hpack.EncoderTreeIns

/-!
Restoring the balance after a node was removed:
`tfw_hpack_rbtree_del_rebalance`. The loop keeps a focus that has lost one black
level. It either moves up or ends with one or two rotations.
-/

namespace Tempesta.Hpack
open RbLib RbTree

/-- The focus `X` is one black level too low for its context, or it is red and
makes up for that once it is painted black. -/
def Deficient (ctx : Ctx Nat) (X : RbTree Nat) : Prop :=
  ∃ n, CtxBal ctx (n + 1) ∧
    (X.color = .black ∧ Bal X n ∨ X.color = .red ∧ Bal (X.paint .black) (n + 1))

variable {base t : TfwHPackTree} {S keys : List Nat} {ctx : Ctx Nat} {d : Dir} {fc c ci : Color}
  {X Y O I1 I2 B R I : RbTree Nat} {p b o i n k m : Nat} {f : Frame Nat}
  {nchild parent : Option Nat}

/-- The rotation that ends the loop: `brother` moves up and takes the colour of
`parent`, and both its children become black. -/
theorem TreeAt.settle (h : TreeAt base S t (plug ctx (RbTree.mk d fc X p (RbTree.mk d c Y b O))))
    (ho : O.root? = some o) :
    ∃ t', rotate d (((t.setColor b fc).setColor p .black).setColor o .black) p = some t' ∧
      TreeAt base S t'
        (plug ctx (RbTree.mk d fc (RbTree.mk d .black X p Y) b (O.paint .black))) := by
  have hb := h.paint_sib (root?_mk ..) fc
  have hp := hb.setColor .black
  rw [paint_mk, plug_sib] at hp
  have ho' := hp.paint_sib ho .black
  rw [← plug_sib] at ho'
  exact ho'.rotated

/-- The rotation before it, where only the inner child of `brother` is red. -/
theorem TreeAt.turnBrother
    (h : TreeAt base S t (plug ctx (RbTree.mk d fc X p
      (RbTree.mk d c (RbTree.mk d ci I1 i I2) b O)))) :
    ∃ t', rotate d.opp ((t.setColor i .black).setColor b .red) b = some t' ∧
      TreeAt base S t'
        (plug ctx (RbTree.mk d fc X p (RbTree.mk d .black I1 i (RbTree.mk d .red I2 b O)))) := by
  rw [plug_sib] at h
  obtain ⟨t', hrun, ht'⟩ := h.topple
  exact ⟨t', hrun, by rwa [← plug_sib] at ht'⟩

/-- What a step of the loop leaves: another focus to go on with, or a balanced
tree and `nchild` at its root. -/
inductive DelNext (base : TfwHPackTree) (S keys : List Nat) (depth : Nat) :
    TfwHPackTree → Option Nat → Option Nat → Prop
  | up {t : TfwHPackTree} {ctx : Ctx Nat} {X : RbTree Nat} (tree : TreeAt base S t (plug ctx X))
      (keys_eq : (plug ctx X).toList = keys) (deficient : Deficient ctx X) (ne : X.root? ≠ none)
      (depth_le : ctx.length + (if X.color = .red then 0 else 1) ≤ depth) :
      DelNext base S keys depth t X.root? (parentOf ctx)
  | done {t : TfwHPackTree} {T : RbTree Nat} {parent : Option Nat} (tree : TreeAt base S t T)
      (keys_eq : T.toList = keys) (rb : RbInv T) (ne : T.root? ≠ none) :
      DelNext base S keys depth t t.root parent

lemma DelNext.mono (h : DelNext base S keys k t nchild parent) (hkm : k ≤ m) :
    DelNext base S keys m t nchild parent := by
  cases h with
  | up tree keys_eq deficient ne depth_le =>
    exact .up tree keys_eq deficient ne (Nat.le_trans depth_le hkm)
  | done tree keys_eq rb ne => exact .done tree keys_eq rb ne

lemma rbInv_plug_of_frame (hctx : CtxBal (⟨d, fc, p, B⟩ :: ctx) (n + 1)) (hcolor : R.color = fc)
    (hred : fc = .red → Bal R (n + 1)) (hblack : fc = .black → Bal R (n + 2)) :
    RbInv (plug ctx R) := by
  rw [rbInv_plug]
  cases fc with
  | red =>
    obtain ⟨-, -, hhead, hctx⟩ := ctxBal_cons_red.mp hctx
    exact ⟨n + 1, hred rfl, hctx, .inr hhead⟩
  | black =>
    obtain ⟨-, hctx⟩ := ctxBal_cons_black.mp hctx
    exact ⟨n + 2, hblack rfl, hctx, .inl hcolor⟩

lemma delBlackBrother_spec
    (h : TreeAt base S t (plug ctx (RbTree.mk d fc X p (RbTree.mk d .black I b O))))
    (hbX : Bal X n) (hbI : Bal I n) (hbO : Bal O n)
    (hctx : CtxBal (⟨d, fc, p, RbTree.mk d .black I b O⟩ :: ctx) (n + 1)) :
    ∃ t' nchild parent, delBlackBrother d t p b = some (t', nchild, parent) ∧
      DelNext base S (plug ctx (RbTree.mk d fc X p (RbTree.mk d .black I b O))).toList
        (ctx.length + if fc = .red then 0 else 1) t' nchild parent := by
  have hcolor := h.color_eq
  have hB := h
  rw [plug_sib] at hB
  have hI : isRed t I.root? = decide (I.color = .red) := by
    have hI := hB
    rw [← plug_cons ⟨d, .black, b, O⟩] at hI
    exact hI.isRed_root
  have hO : isRed t O.root? = decide (O.color = .red) := by
    rw [plug_sib] at hB
    exact hB.isRed_root
  simp only [delBlackBrother, hB.kid_eq, hB.kid_opp_eq, Option.bind_eq_bind, Option.bind_some, hI,
    hO, rotateTo_eq]
  by_cases hOr : O.color = .red
  · obtain ⟨o1, o, o2, rfl⟩ := eq_mk_of_red d hOr
    obtain ⟨t', hrun, ht'⟩ := h.settle (root?_mk ..)
    have hbO' := hbO.paint_black hOr
    refine ⟨t', t'.root, some p, ?_, .done ht' ?_ ?_ ?_⟩
    · simp [hcolor, hrun]
    · refine toList_plug_congr ctx ?_
      cases d <;> simp [mk, paint]
    · have hbl : Bal (mk d .black X p I) (n + 1) := bal_mk_black.mpr ⟨n, rfl, hbX, hbI⟩
      refine rbInv_plug_of_frame hctx (color_mk ..) ?_ ?_
      · rintro rfl
        exact bal_mk_red.mpr ⟨color_mk .., by simp, hbl, hbO'⟩
      · rintro rfl
        exact bal_mk_black.mpr ⟨n + 1, rfl, hbl, hbO'⟩
    · exact root?_ne_none_of_mem (mem_plug.mpr (.inl (mem_mk.mpr (.inl rfl))))
  · have hOb := Color.eq_black_of_ne hOr
    by_cases hIr : I.color = .red
    · obtain ⟨i1, i, i2, rfl⟩ := eq_mk_of_red d hIr
      obtain ⟨hi1, hi2, hbi1, hbi2⟩ := bal_mk_red.mp hbI
      obtain ⟨t1, hrun1, ht1⟩ := h.turnBrother
      obtain ⟨t', hrun, ht'⟩ := ht1.settle (root?_mk ..)
      refine ⟨t', t'.root, some p, ?_, .done ht' ?_ ?_ ?_⟩
      · simp [hOb, hrun1, ht1.kid_opp_eq, ht1.color_eq, hrun]
      · refine toList_plug_congr ctx ?_
        cases d <;> simp [mk, paint]
      · have hbl : Bal (mk d .black X p i1) (n + 1) :=
          bal_mk_black.mpr ⟨n, rfl, hbX, hbi1⟩
        have hbr : Bal (mk d .black i2 b O) (n + 1) :=
          bal_mk_black.mpr ⟨n, rfl, hbi2, hbO⟩
        rw [paint_mk]
        refine rbInv_plug_of_frame hctx (color_mk ..) ?_ ?_
        · rintro rfl
          exact bal_mk_red.mpr ⟨color_mk .., color_mk .., hbl, hbr⟩
        · rintro rfl
          exact bal_mk_black.mpr ⟨n + 1, rfl, hbl, hbr⟩
      · exact root?_ne_none_of_mem (mem_plug.mpr (.inl (mem_mk.mpr (.inl rfl))))
    · have hIb := Color.eq_black_of_ne hIr
      have hnext := h.paint_sib (root?_mk ..) .red
      have hbB : Bal (mk d .red I b O) n := bal_mk_red.mpr ⟨hIb, hOb, hbI, hbO⟩
      rw [paint_mk] at hnext
      refine ⟨t.setColor b .red, some p, parentOf ctx, ?_, ?_⟩
      · simp [hIb, hOb, hnext.parent_eq]
      · rw [← root?_mk d fc X p (mk d .red I b O)]
        refine .up hnext ?_ ?_ (by simp) (by simp)
        · exact toList_plug_congr ctx (toList_mk_congr rfl (toList_mk_congr rfl rfl))
        · cases fc with
          | red =>
            obtain ⟨-, -, -, hctx⟩ := ctxBal_cons_red.mp hctx
            refine ⟨n, hctx, .inr ⟨color_mk .., ?_⟩⟩
            rw [paint_mk]
            exact bal_mk_black.mpr ⟨n, rfl, hbX, hbB⟩
          | black =>
            obtain ⟨-, hctx⟩ := ctxBal_cons_black.mp hctx
            exact ⟨n + 1, hctx, .inl ⟨color_mk .., bal_mk_black.mpr ⟨n, rfl, hbX, hbB⟩⟩⟩

lemma exists_brother (hctx : CtxBal (f :: ctx) (n + 1)) :
    ∃ x a y, f.sib = RbTree.mk f.dir f.sib.color x a y := by
  obtain hnil | hmk := eq_nil_or_mk f.dir f.sib
  · have hbal := hctx.1
    rw [hnil, bal_nil] at hbal
    omega
  · exact hmk

lemma delStep_spec (h : TreeAt base S t (plug (f :: ctx) X)) (hbX : Bal X n)
    (hctx : CtxBal (f :: ctx) (n + 1)) :
    ∃ t' nchild parent, delStep t X.root? f.key = some (t', nchild, parent) ∧
      DelNext base S (plug (f :: ctx) X).toList (ctx.length + 1) t' nchild parent := by
  obtain ⟨x, a, y, hsib⟩ := exists_brother hctx
  have hroot : f.sib.root? = some a := by rw [hsib, root?_mk]
  have hne : f.sib.root? ≠ X.root? := by
    rw [hroot]
    exact fun heq => h.sib_root_ne heq.symm hroot
  obtain ⟨left, hleft, hside⟩ := h.side_eq hne
  rw [plug] at h
  have hkid := h.kid_opp_eq
  obtain ⟨d, fc, p, B⟩ := f
  simp only at hsib hroot hne hleft hside hkid h
  simp only [delStep, hleft, Option.bind_eq_bind, Option.bind_some, hside, hkid, hroot, rotateTo_eq]
  cases hB : B.color with
  | black =>
    rw [hB] at hsib
    subst hsib
    obtain ⟨m, hm, hbx, hby⟩ := bal_mk_black.mp hctx.1
    cases hm
    have hcolor : t.color a = .black := by
      rw [plug_sib] at h
      exact h.color_eq
    obtain ⟨t', nchild, parent, hrun, hnext⟩ := delBlackBrother_spec h hbX hbx hby hctx
    refine ⟨t', nchild, parent, by simp [hcolor, hrun], hnext.mono ?_⟩
    split <;> omega
  | red =>
    rw [hB] at hsib
    subst hsib
    have hcolor : t.color a = .red := by
      rw [plug_sib] at h
      exact h.color_eq
    cases fc with
    | red => cases (color_mk ..).symm.trans (ctxBal_cons_red.mp hctx).2.1
    | black =>
      obtain ⟨hbB, hctx⟩ := ctxBal_cons_black.mp hctx
      obtain ⟨hxc, hyc, hbx, hby⟩ := bal_mk_red.mp hbB
      have hpaint := (h.paint_sib (root?_mk ..) .black).setColor .red
      rw [paint_mk] at hpaint
      obtain ⟨t1, hrun1, ht1⟩ := hpaint.rotated
      have hctx' : CtxBal (⟨d, .black, a, y⟩ :: ctx) (n + 1) :=
        ctxBal_cons_black.mpr ⟨hby, hctx⟩
      have hfr : CtxBal (⟨d, .red, p, x⟩ :: ⟨d, .black, a, y⟩ :: ctx) (n + 1) :=
        ctxBal_cons_red.mpr ⟨hbx, hxc, rfl, hctx'⟩
      obtain ⟨x1, e, x2, hx⟩ := exists_brother hfr
      rw [← plug_cons ⟨d, .black, a, y⟩] at ht1
      have hkid' := ht1.kid_opp_eq
      simp only [hxc] at hx
      subst hx
      obtain ⟨m, hm, hbx1, hbx2⟩ := bal_mk_black.mp hbx
      cases hm
      obtain ⟨t', nchild, parent, hrun, hnext⟩ := delBlackBrother_spec ht1 hbX hbx1 hbx2 hfr
      refine ⟨t', nchild, parent, ?_, ?_⟩
      · simp [hcolor, hrun1, hkid', hrun]
      · have hkeys : (plug (⟨d, .black, a, y⟩ :: ctx)
            (mk d .red X p (mk d .black x1 e x2))).toList =
            (plug ctx (mk d .black X p
              (mk d .red (mk d .black x1 e x2) a y))).toList :=
          toList_plug_congr ctx (toList_rotate ..).symm
        rw [hkeys] at hnext
        exact hnext.mono (by simp)

lemma TreeAt.root_ne (h : TreeAt base S t (plug (f :: ctx) X)) :
    X.root? = none ∨ X.root? ≠ t.root := by
  cases hX : X.root? with
  | none => exact .inl rfl
  | some a =>
    refine .inr fun heq => ?_
    rw [h.root] at heq
    refine (nodup_plug h.nodup).2.2 a (mem_toList_of_root? hX) ?_
    exact root?_plug_cons_mem heq.symm

lemma delLoop_spec (fuel : Nat) (h : TreeAt base S t (plug ctx X)) (hdef : Deficient ctx X)
    (hne : (plug ctx X).root? ≠ none)
    (hfuel : ctx.length + (if X.color = .red then 0 else 1) < fuel) :
    ∃ t' nchild T', delLoop fuel t X.root? (parentOf ctx) = some (t', some nchild) ∧
      TreeAt base S (t'.setColor nchild .black) T' ∧ T'.toList = (plug ctx X).toList ∧
      RbInv T' := by
  induction fuel generalizing t ctx X with
  | zero => omega
  | succ fuel ih =>
    have hisRed := h.isRed_root
    obtain ⟨n, hctx, ⟨hX, hbX⟩ | ⟨hX, hbX⟩⟩ := hdef
    · cases ctx with
      | nil =>
        obtain ⟨a, ha⟩ := Option.ne_none_iff_exists'.mp hne
        refine ⟨t, a, X.paint .black, ?_, TreeAt.paint_top h ha .black,
          toList_paint .., rbInv_paint_black ⟨hX, n, hbX⟩⟩
        rw [plug] at ha
        simp [delLoop, ha, h.root]
      | cons f fs =>
        obtain ⟨t1, nchild1, parent1, hrun1, hnext⟩ := delStep_spec h hbX hctx
        have hcond : X.root? = none ∨ X.root? ≠ t.root ∧ isRed t X.root? = false := by
          rw [hisRed, hX]
          exact h.root_ne.imp_right fun hr => ⟨hr, rfl⟩
        rw [hX] at hfuel
        simp only [List.length_cons, reduceCtorEq, if_false] at hfuel
        simp only [delLoop, if_pos hcond, parentOf, Option.bind_eq_bind, Option.bind_some, hrun1]
        cases hnext with
        | up tree keys_eq deficient ne depth_le =>
          rename_i ctx' X'
          obtain ⟨t', nchild, T', hrun, hT', hkeys, hrb⟩ := ih tree deficient
            (root?_ne_none_of_mem (mem_plug.mpr (.inl (mem_toList_of_root?
              (Option.ne_none_iff_exists'.mp ne).choose_spec)))) (by omega)
          exact ⟨t', nchild, T', hrun, hT', hkeys.trans keys_eq, hrb⟩
        | done tree keys_eq rb ne =>
          rename_i T1
          obtain ⟨k, rfl⟩ : ∃ k, fuel = k + 1 := Nat.exists_eq_succ_of_ne_zero (by omega)
          obtain ⟨r, hr⟩ := Option.ne_none_iff_exists'.mp ne
          refine ⟨t1, r, T1.paint .black, ?_, tree.paint_top hr .black, ?_,
            rbInv_paint_black rb⟩
          · simp [delLoop, tree.root, hr]
          · rw [toList_paint, keys_eq]
    · obtain ⟨x, a, y, rfl⟩ := eq_mk_of_red .left hX
      rw [root?_mk, color_mk] at hisRed
      refine ⟨t, a, _, ?_, h.paint_root (root?_mk ..) .black, ?_, ?_⟩
      · simp [delLoop, hisRed]
      · exact toList_plug_congr ctx (toList_paint ..)
      · exact (rbInv_plug ctx _).mpr ⟨n + 1, hbX, hctx, .inl (by simp)⟩

/-- `tfw_hpack_rbtree_del_rebalance` -/
theorem delRebalance_spec (h : TreeAt base S t (plug ctx X)) (hdef : Deficient ctx X)
    (hne : t.root ≠ none) :
    ∃ t' T', tfwHpackRbtreeDelRebalance t X.root? (parentOf ctx) = some t' ∧
      TreeAt base S t' T' ∧ T'.toList = (plug ctx X).toList ∧ RbInv T' := by
  obtain ⟨r, hr⟩ := Option.ne_none_iff_exists'.mp hne
  have hfuel : ctx.length + (if X.color = .red then 0 else 1) < rbtreeFuel := by
    have hlen := h.ctx_length_le
    have hbound : rbtreeFuel = 1024 := rfl
    split <;> omega
  obtain ⟨t', nchild, T', hrun, hT', hkeys, hrb⟩ :=
    delLoop_spec rbtreeFuel h hdef (h.root ▸ hne) hfuel
  refine ⟨_, T', ?_, hT', hkeys, hrb⟩
  simp [tfwHpackRbtreeDelRebalance, hr, hrun]

end Tempesta.Hpack
