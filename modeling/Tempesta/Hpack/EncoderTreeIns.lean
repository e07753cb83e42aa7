import Tempesta.Hpack.EncoderTreeRep

/-!
Adding a node to the tree of the encoder table: `tfw_hpack_rbtree_add` puts the
node at the given place, and `tfw_hpack_rbtree_ins_rebalance` restores the
balance without changing the order of the nodes.
-/

namespace Tempesta.Hpack
open RbLib Option RbTree TfwHPackTree

variable {t : TfwHPackTree} {ctx : Ctx Nat} {x y q : RbTree Nat} {a new : Nat} {d : Dir} {c : Color}
  {base t' t1 : TfwHPackTree} {S : List Nat} {T p s T' : RbTree Nat} {b top k n fuel uncle : Nat}
  {c' : Color} {f g : Frame Nat} {it : TfwHPackNodeIter}

@[simp] lemma rotateTo_eq : rotateTo d = rotate d := by
  cases d <;> rfl

lemma TreeAt.isRed_root (h : TreeAt base S t (plug ctx T)) :
    isRed t T.root? = decide (T.color = .red) := by
  obtain rfl | ⟨x, a, y, hT⟩ := eq_nil_or_mk .left T
  · rfl
  · rw [hT] at h ⊢
    simp [isRed, h.color_eq]

lemma TreeAt.paint_root (h : TreeAt base S t (plug ctx T)) (ha : T.root? = some a) (c : Color) :
    TreeAt base S (t.setColor a c) (plug ctx (T.paint c)) := by
  obtain rfl | ⟨x, b, y, hT⟩ := eq_nil_or_mk .left T
  · cases ha
  · rw [hT, root?_mk] at ha
    cases ha
    rw [hT] at h ⊢
    simpa using h.setColor c

lemma TreeAt.paint_top (h : TreeAt base S t T) (ha : T.root? = some a) (c : Color) :
    TreeAt base S (t.setColor a c) (T.paint c) :=
  TreeAt.paint_root (show TreeAt base S t (plug [] T) from h) ha c

lemma plug_sib : plug ctx (RbTree.mk d c x a y) = plug (⟨d.opp, c, a, x⟩ :: ctx) y := by
  simp

lemma TreeAt.paint_sib (h : TreeAt base S t (plug ctx (RbTree.mk d c x a y)))
    (hb : y.root? = some b) (c' : Color) :
    TreeAt base S (t.setColor b c') (plug ctx (RbTree.mk d c x a (y.paint c'))) := by
  rw [plug_sib] at h ⊢
  exact h.paint_root hb c'

lemma TreeAt.sib_root_ne (h : TreeAt base S t (plug (f :: ctx) T)) (ha : T.root? = some a) :
    f.sib.root? ≠ some a := by
  intro heq
  refine (nodup_plug h.nodup).2.2 a (mem_toList_of_root? ha) ?_
  simp [ctxKeys, mem_toList_of_root? heq]

/-- The source finds out on which side of its parent a subtree is by comparing
it with the left child. -/
theorem TreeAt.side_eq (h : TreeAt base S t (plug (f :: ctx) T)) (hne : f.sib.root? ≠ T.root?) :
    ∃ left, hpackNodeCond (t.kid .left f.key) = some left ∧
      (if T.root? = left then Dir.left else .right) = f.dir := by
  rw [plug] at h
  cases hd : f.dir with
  | left =>
    rw [hd] at h
    exact ⟨_, h.kid_eq, by simp⟩
  | right =>
    rw [hd] at h
    exact ⟨_, h.kid_opp_eq, by simp [Ne.symm hne]⟩

/-- What the loop leaves: the nodes in the same order, in balance as soon as
the root is black. -/
structure Rebalanced (base : TfwHPackTree) (S : List Nat) (keys : List Nat)
    (t : TfwHPackTree) (T : RbTree Nat) : Prop where
  tree : TreeAt base S t T
  keys : T.toList = keys
  rb : RbInv (T.paint .black)

lemma rbInv_paint_black (h : RbInv T) : RbInv (T.paint .black) := by
  have hc := h.1
  have hself : T.paint T.color = T := paint_self
  rw [hc] at hself
  rwa [hself]

/-- The rotation that ends the loop: the child `top` of `k` moves up. -/
theorem TreeAt.topple
    (h : TreeAt base S t (plug ctx (RbTree.mk d c (RbTree.mk d c' p top q) k s))) :
    ∃ t', rotate d.opp ((t.setColor top .black).setColor k .red) k = some t' ∧
      TreeAt base S t' (plug ctx (RbTree.mk d .black p top (RbTree.mk d .red q k s))) := by
  have htop : TreeAt base S (t.setColor top .black)
      (plug ctx (RbTree.mk d c (RbTree.mk d .black p top q) k s)) := by
    rw [← plug_cons ⟨d, c, k, s⟩] at h ⊢
    exact h.setColor .black
  have hk := htop.setColor .red
  rw [← mk_opp, ← mk_opp d .black] at hk
  obtain ⟨t', hrun, ht'⟩ := hk.rotated
  exact ⟨t', hrun, by simpa using ht'⟩

/-- One or two rotations below the grandparent put a black node on top of two
red ones. -/
theorem insRotate_spec (h : TreeAt base S t (plug (f :: g :: ctx) T)) (hroot : T.root? = some new)
    (hred : T.color = .red) (hbal : Bal T n) (hctx : CtxBal (f :: g :: ctx) n)
    (hf : f.color = .red) (huncle : g.sib.color = .black) :
    ∃ t' top x y, insRotate g.dir t new f.key g.key = some (t', top) ∧
      TreeAt base S t' (plug ctx (RbTree.mk g.dir .black x top y)) ∧
      (RbTree.mk g.dir .black x top y).toList = (plug [f, g] T).toList ∧
      Bal (RbTree.mk g.dir .black x top y) (n + 1) := by
  obtain ⟨fd, fc, fk, fs⟩ := f
  obtain ⟨gd, gc, gk, gs⟩ := g
  cases hf
  obtain ⟨hbf, hfsib, rfl, hctx⟩ := hctx
  obtain ⟨hbg, hctx⟩ := ctxBal_cons_black.mp hctx
  have hne := h.sib_root_ne hroot
  simp only [insRotate, rotateTo_eq]
  by_cases hdir : fd = gd
  · subst hdir
    have hinner : hpackNodeCond (t.kid fd.opp fk) = some fs.root? := by
      rw [plug] at h
      exact h.kid_opp_eq
    obtain ⟨t', hrun, ht'⟩ := h.topple
    refine ⟨t', fk, T, RbTree.mk fd .red fs gk gs, ?_, ht', ?_, ?_⟩
    · simp only [hinner, bind_eq_bind, bind_some, if_neg hne, hrun]
    · cases fd <;> simp [RbTree.mk]
    · exact bal_mk_black.mpr ⟨n, rfl, hbal, bal_mk_red.mpr ⟨hfsib, huncle, hbf, hbg⟩⟩
  · cases Dir.eq_opp_of_ne hdir
    obtain ⟨p, a, q, rfl⟩ := eq_mk_of_red gd hred
    rw [root?_mk] at hroot
    cases hroot
    obtain ⟨hp, hq, hbp, hbq⟩ := bal_mk_red.mp hbal
    rw [plug, mk_opp] at h
    have hinner := h.kid_opp_eq
    rw [root?_mk] at hinner
    obtain ⟨t1, hrun1, ht1⟩ := h.rotated
    rw [plug] at ht1
    obtain ⟨t', hrun, ht'⟩ := ht1.topple
    refine ⟨t', new, RbTree.mk gd .red fs fk p, RbTree.mk gd .red q gk gs, ?_, ht', ?_, ?_⟩
    · simp only [hinner, bind_eq_bind, bind_some, if_pos, hrun1, hrun]
    · cases gd <;> simp [RbTree.mk, Dir.opp]
    · exact bal_mk_black.mpr ⟨n, rfl, bal_mk_red.mpr ⟨hfsib, hp, hbf, hbp⟩,
        bal_mk_red.mpr ⟨hq, huncle, hbq, hbg⟩⟩

lemma insLoop_succ (h : TreeAt base S t (plug (f :: g :: ctx) T)) (hf : f.color = .red) :
    insLoop (fuel + 1) t new (some f.key) =
      match g.sib.root?, decide (g.sib.color = .red) with
      | some uncle, true =>
        let t := ((t.setColor f.key .black).setColor uncle .black).setColor g.key .red
        (hpackNodeCond (t.parent g.key)).bind fun p => insLoop fuel t g.key p
      | _, _ =>
        (insRotate g.dir t new f.key g.key).bind fun r => insLoop fuel r.1 new (some r.2) := by
  have hup := h
  rw [plug] at hup
  obtain ⟨left, hleft, hside⟩ := hup.side_eq fun heq =>
    hup.sib_root_ne (root?_mk ..) (heq.trans (root?_mk ..))
  rw [root?_mk] at hside
  have hfcol := hup.color_eq
  have hfpar := hup.parent_eq
  rw [plug] at hup
  have huncle := hup.kid_opp_eq
  have hred : isRed t g.sib.root? = decide (g.sib.color = .red) := by
    rw [plug_sib] at hup
    exact hup.isRed_root
  rw [insLoop]
  generalize decide (g.sib.color = .red) = red at hred ⊢
  generalize g.sib.root? = sib at hred huncle ⊢
  cases sib with
  | none =>
    simp only [hfcol, hf, reduceCtorEq, if_false, hfpar, parentOf, hleft, bind_eq_bind,
      bind_some, hside, huncle]
  | some uncle =>
    cases red <;>
      simp only [hfcol, hf, reduceCtorEq, if_false, hfpar, parentOf, hleft, bind_eq_bind,
        bind_some, hside, huncle, hred]

lemma TreeAt.recolor (h : TreeAt base S t (plug (f :: g :: ctx) T))
    (huncle : g.sib.root? = some uncle) :
    TreeAt base S (((t.setColor f.key .black).setColor uncle .black).setColor g.key .red)
      (plug ctx (RbTree.mk g.dir .red (RbTree.mk f.dir .black T f.key f.sib) g.key
        (g.sib.paint .black))) := by
  rw [plug] at h
  have hpar := h.setColor .black
  rw [plug] at hpar
  exact (hpar.paint_sib huncle .black).setColor .red

lemma insLoop_spec (fuel : Nat) (h : TreeAt base S t (plug ctx T)) (hroot : T.root? = some new)
    (hred : T.color = .red) (hbal : Bal T n) (hctx : CtxBal ctx n) (hfuel : ctx.length < fuel) :
    ∃ t' T', insLoop fuel t new (parentOf ctx) = some t' ∧
      Rebalanced base S (plug ctx T).toList t' T' := by
  induction fuel generalizing t T new ctx n with
  | zero => omega
  | succ fuel ih =>
    cases ctx with
    | nil =>
      refine ⟨t, T, rfl, h, rfl, ?_⟩
      exact ⟨by cases T <;> rfl, n + 1, hbal.paint_black hred⟩
    | cons f fs =>
      by_cases hf : f.color = .black
      · refine ⟨t, _, ?_, h, rfl, rbInv_paint_black ?_⟩
        · have hcolor := (plug_cons f ▸ h : TreeAt _ _ _ _).color_eq
          simp [insLoop, parentOf, hcolor, hf]
        · exact (rbInv_plug _ T).mpr ⟨n, hbal, hctx, .inr hf⟩
      · obtain ⟨g, fs, rfl, hg, hbf, hfsib, hbg, hfs⟩ := hctx.of_red hf
        have hf : f.color = .red := Color.eq_red_of_ne hf
        rw [parentOf, insLoop_succ h hf]
        by_cases huncle : g.sib.color = .red
        · obtain ⟨u, k, v, hu⟩ := eq_mk_of_red .left huncle
          have hk : g.sib.root? = some k := by rw [hu, root?_mk]
          have hre := h.recolor hk
          have hpaint := hbg.paint_black huncle
          have hbal' : Bal (RbTree.mk g.dir .red (RbTree.mk f.dir .black T f.key f.sib) g.key
              (g.sib.paint .black)) (n + 1) := by
            refine bal_mk_red.mpr ⟨color_mk .., by rw [hu, paint_mk, color_mk],
              bal_mk_black.mpr ⟨n, rfl, hbal, hbf⟩, hpaint⟩
          obtain ⟨t', T', hrun, hT'⟩ := ih hre (root?_mk ..) (color_mk ..) hbal' hfs
            (by simp only [List.length_cons] at hfuel; omega)
          refine ⟨t', T', ?_, hT'.tree, ?_, hT'.rb⟩
          · simp only [hk, huncle, decide_true, hre.parent_eq, bind_some, hrun]
          · rw [hT'.keys]
            exact toList_plug_congr fs (toList_mk_congr
              (toList_mk_congr rfl rfl) (toList_paint ..))
        · have huncle : g.sib.color = .black := Color.eq_black_of_ne huncle
          obtain ⟨t', top, x, y, hrun, ht', hkeys, hbal'⟩ :=
            insRotate_spec h hroot hred hbal hctx hf huncle
          obtain ⟨k, rfl⟩ : ∃ k, fuel = k + 1 :=
            Nat.exists_eq_succ_of_ne_zero (by simp only [List.length_cons] at hfuel; omega)
          refine ⟨t', _, ?_, ht', ?_, rbInv_paint_black ?_⟩
          · simp [huncle, hrun, insLoop, ht'.color_eq]
          · exact toList_plug_congr fs hkeys
          · exact (rbInv_plug fs _).mpr ⟨n + 1, hbal', hfs, .inl (color_mk ..)⟩

/-- `tfw_hpack_rbtree_ins_rebalance` after a red node was put in place. -/
theorem insRebalance_spec (h : TreeAt base S t (plug ctx T)) (hroot : T.root? = some new)
    (hred : T.color = .red) (hbal : Bal T n) (hctx : CtxBal ctx n) :
    ∃ t' T', tfwHpackRbtreeInsRebalance t new = some t' ∧ TreeAt base S t' T' ∧
      T'.toList = (plug ctx T).toList ∧ RbInv T' := by
  obtain ⟨t', T', hrun, hT'⟩ := insLoop_spec rbtreeFuel h hroot hred hbal hctx
    (Nat.lt_of_le_of_lt h.ctx_length_le (by decide))
  obtain ⟨x, a, y, rfl⟩ := eq_mk_of_red .left hred
  cases (root?_mk ..).symm.trans hroot
  have hmem : new ∈ T'.toList := by
    rw [hT'.keys]
    exact mem_plug.mpr (.inl (mem_mk.mpr (.inl rfl)))
  obtain ⟨r, hr⟩ : ∃ r, T'.root? = some r := by
    cases T' with
    | nil => cases hmem
    | node c l r s => exact ⟨r, rfl⟩
  refine ⟨t'.setColor r .black, T'.paint .black, ?_, hT'.tree.paint_top hr .black, ?_,
    hT'.rb⟩
  · simp [tfwHpackRbtreeInsRebalance, h.parent_eq, hrun, hT'.tree.root, hr]
  · rw [toList_paint, hT'.keys]

def IsPlace (T : RbTree Nat) (it : TfwHPackNodeIter) : Prop :=
  ∃ ctx, T = plug ctx .nil ∧ it.parent = parentOf ctx ∧ ∀ f ∈ ctx.head?, it.poff = f.dir

/-- The node stands in the order where the free slot is: before its parent or behind it. -/
def Inserted (T : RbTree Nat) (it : TfwHPackNodeIter) (new : Nat) (T' : RbTree Nat) : Prop :=
  ∃ xs ys, T.toList = xs ++ ys ∧ T'.toList = xs ++ new :: ys ∧
    match it.parent, it.poff with
    | none, _ => xs = [] ∧ ys = []
    | some p, .left => ys.head? = some p
    | some p, .right => xs.getLast? = some p

lemma Inserted.perm (h : Inserted T it new T') : T'.toList.Perm (new :: T.toList) := by
  obtain ⟨xs, ys, hT, hT', -⟩ := h
  rw [hT, hT']
  exact List.perm_middle

lemma inserted_plug (hpar : it.parent = parentOf ctx) (hdir : ∀ f ∈ ctx.head?, it.poff = f.dir)
    (hkeys : T'.toList = (plug ctx (RbTree.mk .left .red .nil new .nil)).toList) :
    Inserted (plug ctx .nil) it new T' := by
  rw [Inserted, hpar, hkeys]
  cases ctx with
  | nil => exact ⟨[], [], rfl, rfl, rfl, rfl⟩
  | cons f fs =>
    obtain ⟨xs, ys, hlist⟩ := toList_plug fs
    rw [hdir f rfl, plug, plug, hlist, hlist, parentOf]
    cases f.dir with
    | left => exact ⟨xs, f.key :: f.sib.toList ++ ys, by simp [RbTree.mk], by simp [RbTree.mk], rfl⟩
    | right =>
      exact ⟨xs ++ f.sib.toList ++ [f.key], ys, by simp [RbTree.mk], by simp [RbTree.mk], by simp⟩

def attachNode (t : TfwHPackTree) (new : Nat) : TfwHPackTree :=
  ((t.setKid .left new (-1)).setKid .right new (-1)).setColor new .red

lemma links_attachNode {q : Nat} :
    (attachNode t new).links q =
      if q = new then ⟨.red, (t.links new).parent, -1, -1⟩ else t.links q := by
  by_cases hq : q = new
  · simp [attachNode, links_setColor, links_setKid, hq, Links.setColor,
      Links.setKid]
  · simp [attachNode, links_setColor, links_setKid, hq]

lemma LinksOnly.attachNode (h : LinksOnly S t t') (hnew : new ∈ S) :
    LinksOnly S t (attachNode t' new) :=
  ((h.setKid .left hnew _).setKid .right hnew _).setColor hnew _

lemma TreeAt.attach (h : TreeAt base S t (plug ctx .nil)) (hS : new ∈ S) (hnew : new ∉ ctxKeys ctx)
    (hdata : LinksOnly S base t1) (hroot : t1.root = if ctx = [] then some new else t.root)
    (hpar : (t1.links new).parent = hpackNodeCondOff (parentOf ctx))
    (hhead : ∀ f ∈ ctx.head?, t1.links f.key = (t.links f.key).setKid f.dir (hpackNodeOff new))
    (hsame : ∀ q, q ≠ new → parentOf ctx ≠ some q → t1.links q = t.links q) :
    TreeAt base S (attachNode t1 new) (plug ctx (RbTree.mk .left .red .nil new .nil)) := by
  have hother : ∀ q ∈ ctxKeys ctx, (attachNode t1 new).links q = t1.links q := by
    intro q hq
    rw [links_attachNode, if_neg (ne_of_mem_of_not_mem hq hnew)]
  refine h.refocus (by simp [RbTree.mk]) ?_ (rep_mk.mpr ⟨?_, trivial, trivial⟩) ?_ ?_ ?_
    (hdata.attachNode hS)
  · intro q hq
    cases (by simpa [RbTree.mk] using hq : q = new)
    exact ⟨hS, hnew⟩
  · rw [links_attachNode, if_pos rfl, hpar]
    rfl
  · simpa [attachNode] using hroot
  · intro f hf
    rw [hother _ (mem_ctxKeys_of_parentOf (parentOf_of_head hf)), hhead f hf]
    rfl
  · intro q hq hp
    rw [hother q hq, hsame q (ne_of_mem_of_not_mem hq hnew) hp]

/-- `tfw_hpack_rbtree_add` at a place of the tree. -/
theorem rbtreeAdd_spec (h : TreeAt base S t T) (hrb : RbInv T) (hplace : IsPlace T it)
    (hS : new ∈ S) (hnew : new ∉ T.toList) :
    ∃ t' T', tfwHpackRbtreeAdd t new it = some t' ∧ TreeAt base S t' T' ∧
      Inserted T it new T' ∧ RbInv T' := by
  obtain ⟨ctx, rfl, hpar, hdir⟩ := hplace
  obtain ⟨n, hbal, hctx, -⟩ := (rbInv_plug ctx _).mp hrb
  cases bal_nil.mp hbal
  have hnew : new ∉ ctxKeys ctx := fun hmem => hnew (mem_plug.mpr (.inr hmem))
  have hd1 := h.data.setParent hS (hpackNodeCondOff it.parent)
  have hl1 : ∀ q, q ≠ new →
      (t.setParent new (hpackNodeCondOff it.parent)).links q = t.links q := fun q hq => by
    rw [links_setParent, if_neg hq]
  have hnewpar : ((t.setParent new (hpackNodeCondOff it.parent)).links new).parent =
      hpackNodeCondOff (parentOf ctx) := by
    rw [links_setParent, if_pos rfl, hpar]
    rfl
  have hend : ∀ t1, TreeAt base S (attachNode t1 new)
    (plug ctx (RbTree.mk .left .red .nil new .nil)) →
      tfwHpackRbtreeAdd t new it = tfwHpackRbtreeInsRebalance (attachNode t1 new) new →
      ∃ t' T', tfwHpackRbtreeAdd t new it = some t' ∧ TreeAt base S t' T' ∧
        Inserted (plug ctx .nil) it new T' ∧ RbInv T' := by
    intro t1 ht1 hrun1
    obtain ⟨t', T', hrun, hT', hkeys, hrb'⟩ := insRebalance_spec ht1 (root?_mk ..)
      (color_mk ..) (n := 0) (by simp) hctx
    exact ⟨t', T', hrun1.trans hrun, hT', inserted_plug hpar hdir hkeys, hrb'⟩
  cases ctx with
  | nil =>
    have hroot : t.root = none := h.root
    refine hend { t.setParent new (hpackNodeCondOff it.parent) with root := some new }
      (h.attach hS hnew (hd1.setRoot _) rfl hnewpar (by rintro f ⟨⟩) ?_) ?_
    · exact fun q hq _ => hl1 q hq
    · simp [tfwHpackRbtreeAdd, hpar, parentOf, hroot, attachNode]
  | cons f fs =>
    have hkey : f.key ≠ new := by
      rintro rfl
      exact hnew (by simp [ctxKeys])
    have hfS : f.key ∈ S := h.sub _ (mem_plug.mpr (.inr (by simp [ctxKeys])))
    refine hend ((t.setParent new (hpackNodeCondOff it.parent)).setKid f.dir f.key
      (hpackNodeOff new)) (h.attach hS hnew (hd1.setKid f.dir hfS _) ?_ ?_ ?_ ?_) ?_
    · simp
    · rw [links_setKid, if_neg hkey.symm, hnewpar]
    · rintro g ⟨rfl⟩
      rw [links_setKid, if_pos rfl, hl1 _ hkey]
    · intro q hq hp
      rw [links_setKid, if_neg, hl1 q hq]
      rintro rfl
      exact hp rfl
    · simp [tfwHpackRbtreeAdd, hpar, parentOf, attachNode, hdir f rfl]

end Tempesta.Hpack
