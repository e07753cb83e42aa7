import Tempesta.Hpack.EncoderTreeDel

/-!
Removing a node from the tree of the encoder table: `tfw_hpack_rbtree_erase`. A
node with one child is replaced by it, and a node with two children by its
successor. The removed node may be any node of the tree.
-/

namespace Tempesta.Hpack
open RbLib Option RbTree TfwHPackTree

variable {rctx : Ctx Nat} {f : Frame Nat} {base t t2 : TfwHPackTree} {S : List Nat} {ctx : Ctx Nat}
  {d : Dir} {c sc : Color} {N x y T L R : RbTree Nat} {a fuel r s l : Nat} {p1 p2 : Option Nat}

/-- `tfw_hpack_rbtree_replace` of a node by its only child. -/
theorem TreeAt.spliced (h : TreeAt base S t (plug ctx (RbTree.mk d c .nil a N))) :
    ∃ t', tfwHpackRbtreeReplace t a N.root? = some t' ∧ TreeAt base S t' (plug ctx N) := by
  obtain ⟨hn, -, hdisj⟩ := nodup_plug h.nodup
  obtain ⟨-, haN, -, hnN, -⟩ := nodup_mk_iff.mp hn
  obtain ⟨-, -, hN⟩ := rep_mk.mp ((rep_plug ctx _).mp h.rep).2
  have hmem : ∀ q ∈ N.toList, q ∈ S ∧ q ∉ ctxKeys ctx := fun q hq =>
    have hq' := mem_mk.mpr (.inr (.inr hq))
    ⟨h.sub q (mem_plug.mpr (.inl hq')), hdisj q hq'⟩
  have hroot : ∀ q, N.root? = some q → q ∈ S ∧ q ∉ ctxKeys ctx := fun q hq =>
    hmem q (mem_toList_of_root? hq)
  obtain ⟨hrel, hdata⟩ := relinkParent_spec h (root?_mk ..) N.root? (fun _ _ => rfl) h.data
  have hrootne : ∀ q ∈ ctxKeys ctx, N.root? ≠ some q := fun q hq hr => (hroot q hr).2 hq
  refine ⟨_, by simp only [tfwHpackRbtreeReplace, h.parent_eq]; rfl, ?_⟩
  refine h.refocus hnN hmem ?_ ?_ ?_ ?_ (hdata.adopt (fun q hq => (hroot q hq).1) _)
  · refine hN.reparent hnN ?_ ?_
    · intro q hq
      rw [links_adopt, if_pos hq, hrel.same]
      exact fun hp => (hroot q hq).2 (mem_ctxKeys_of_parentOf hp)
    · intro q hq hr
      rw [links_adopt, if_neg hr, hrel.same]
      exact fun hp => (hmem q hq).2 (mem_ctxKeys_of_parentOf hp)
  · rw [root_adopt, hrel.root]
  · intro f hf
    rw [links_adopt, if_neg (hrootne _ (mem_ctxKeys_of_parentOf (parentOf_of_head hf))),
      hrel.head f hf]
  · intro q hq hp
    rw [links_adopt, if_neg (hrootne q hq), hrel.same q hp]

/-- `tfw_hpack_rbtree_min` goes down on the left side. -/
theorem minLoop_spec (R : RbTree Nat) (h : TreeAt base S t (plug ctx R)) (hr : R.root? = some r)
    (hfuel : R.toList.length ≤ fuel) :
    ∃ rctx c s N, R = plug rctx (RbTree.mk .left c .nil s N) ∧ (∀ f ∈ rctx, f.dir = .left) ∧
      minLoop fuel t r = some s := by
  induction R generalizing ctx fuel r with
  | nil => cases hr
  | node c l b N ihl ihr =>
    cases hr
    have hkid := TreeAt.kid_eq (d := .left) h
    simp only [RbTree.toList, List.length_append, List.length_cons] at hfuel
    obtain ⟨k, rfl⟩ : ∃ k, fuel = k + 1 := Nat.exists_eq_succ_of_ne_zero (by omega)
    cases hl : l.root? with
    | none =>
      cases RbTree.root?_eq_none.mp hl
      refine ⟨[], c, b, N, rfl, by simp, ?_⟩
      simp [minLoop, hkid]
    | some e =>
      have hdown : TreeAt base S t (plug (⟨.left, c, b, N⟩ :: ctx) l) := h
      obtain ⟨rctx, c', s, N', rfl, hdir, hrun⟩ := ihl hdown hl (show l.toList.length ≤ k by omega)
      refine ⟨rctx ++ [⟨.left, c, b, N⟩], c', s, N', ?_, ?_, ?_⟩
      · rw [plug_append]
        rfl
      · intro f hf
        obtain hf | hf := List.mem_append.mp hf
        · exact hdir f hf
        · cases List.mem_singleton.mp hf
          rfl
      · simp [minLoop, hkid, hl, hrun]

/-- On the left side of the tree, taking out a leftmost node takes its key from
the front. -/
theorem toList_plug_left (hdir : ∀ f ∈ rctx, f.dir = .left) (h : x.toList = s :: y.toList) :
    (plug rctx x).toList = s :: (plug rctx y).toList := by
  induction rctx generalizing x y with
  | nil => exact h
  | cons f fs ih =>
    refine ih (fun g hg => hdir g (List.mem_cons_of_mem _ hg)) ?_
    rw [hdir f List.mem_cons_self]
    simp [RbTree.mk, h]

/-- The end of `eraseInner`: `s` takes the place of `a`. -/
def takePlace (t : TfwHPackTree) (parent : Option Nat) (a s l : Nat) : TfwHPackTree :=
  let t := adopt (relinkParent t parent a (some s)) (some s) (hpackNodeCondOff parent)
  let t := t.setParent l (hpackNodeOff s)
  let t := t.setKid .left s (t.kid .left a)
  t.setColor s (t.color a)

lemma takePlace_spec (h : TreeAt base S t (plug ctx T)) (hroot : T.root? = some a)
    (hsame : ∀ f ∈ ctx.head?, t2.links f.key = t.links f.key) (hdata : LinksOnly S base t2)
    (hsS : s ∈ S) (hlS : l ∈ S) (hsa : s ≠ a) (hla : l ≠ a) (hls : l ≠ s)
    (hpar : ∀ q, parentOf ctx = some q → q ≠ s ∧ q ≠ l ∧ q ≠ a) :
    LinksOnly S base (takePlace t2 (parentOf ctx) a s l) ∧
      (takePlace t2 (parentOf ctx) a s l).root = (if ctx = [] then some s else t2.root) ∧
      (takePlace t2 (parentOf ctx) a s l).links s = ⟨(t2.links a).color,
        hpackNodeCondOff (parentOf ctx), (t2.links a).left, (t2.links s).right⟩ ∧
      (takePlace t2 (parentOf ctx) a s l).links l = (t2.links l).setParent (hpackNodeOff s) ∧
      (∀ f ∈ ctx.head?, (takePlace t2 (parentOf ctx) a s l).links f.key =
        (t.links f.key).setKid f.dir (hpackNodeOff s)) ∧
      ∀ q, q ≠ s → q ≠ l → parentOf ctx ≠ some q →
        (takePlace t2 (parentOf ctx) a s l).links q = t2.links q := by
  obtain ⟨hrel, hd⟩ := relinkParent_spec h hroot (some s) hsame hdata
  have hps : parentOf ctx ≠ some s := fun hp => (hpar s hp).1 rfl
  have hpl : parentOf ctx ≠ some l := fun hp => (hpar l hp).2.1 rfl
  have hpa : parentOf ctx ≠ some a := fun hp => (hpar a hp).2.2 rfl
  have hlinks : ∀ q, q ≠ s → q ≠ l → (takePlace t2 (parentOf ctx) a s l).links q =
      (relinkParent t2 (parentOf ctx) a (some s)).links q := by
    intro q hqs hql
    simp only [takePlace, links_setColor, links_setKid,
      links_setParent, links_adopt, if_neg hqs, if_neg hql]
    rw [if_neg (by simpa using Ne.symm hqs)]
  refine ⟨?_, ?_, ?_, ?_, ?_, ?_⟩
  · refine (((hd.adopt ?_ _).setParent hlS _).setKid .left hsS _).setColor hsS _
    rintro q ⟨rfl⟩
    exact hsS
  · simp [takePlace, hrel.root]
  · simp only [takePlace, links_setColor, links_setKid,
      links_setParent, links_adopt, kid_eq, color_eq,
      if_pos, if_neg hsa.symm, if_neg hls.symm, if_neg hla.symm, Option.some.injEq, if_neg hsa,
      hrel.same a hpa, hrel.same s hps]
    rfl
  · simp only [takePlace, links_setColor, links_setKid,
      links_setParent, links_adopt, if_neg hls, if_pos, Option.some.injEq,
      if_neg hls.symm, hrel.same l hpl]
  · intro f hf
    obtain ⟨hfs, hfl, -⟩ := hpar f.key (parentOf_of_head hf)
    rw [hlinks _ hfs hfl, hrel.head f hf, hsame f hf]
    rfl
  · intro q hqs hql hqp
    rw [hlinks q hqs hql, hrel.same q hqp]

lemma TreeAt.substitute (h : TreeAt base S t (plug ctx T))
    (hL : LinkRep hpackNodeCondOff t.links p1 L) (hR : LinkRep hpackNodeCondOff t.links p2 R)
    (hn : (RbTree.mk .left c L s R).toList.Nodup)
    (hkeys : ∀ q ∈ (RbTree.mk .left c L s R).toList, q ∈ S ∧ q ∉ ctxKeys ctx)
    (hdata : LinksOnly S base t2) (hroot : t2.root = if ctx = [] then some s else t.root)
    (hs : t2.links s = Links.of .left c (hpackNodeCondOff (parentOf ctx))
      (hpackNodeCondOff L.root?) (hpackNodeCondOff R.root?))
    (hLr : ∀ q, L.root? = some q → t2.links q = (t.links q).setParent (hpackNodeOff s))
    (hRr : ∀ q, R.root? = some q → t2.links q = (t.links q).setParent (hpackNodeOff s))
    (hhead : ∀ f ∈ ctx.head?, t2.links f.key = (t.links f.key).setKid f.dir (hpackNodeOff s))
    (hsame : ∀ q, q ≠ s → L.root? ≠ some q → R.root? ≠ some q → parentOf ctx ≠ some q →
      t2.links q = t.links q) :
    TreeAt base S t2 (plug ctx (RbTree.mk .left c L s R)) := by
  obtain ⟨hsL, hsR, hnL, hnR, hLR⟩ := nodup_mk_iff.mp hn
  have hpar : ∀ q ∈ (RbTree.mk .left c L s R).toList, parentOf ctx ≠ some q :=
    fun q hq hp => (hkeys q hq).2 (mem_ctxKeys_of_parentOf hp)
  refine h.refocus hn hkeys (rep_mk.mpr ⟨hs, hL.reparent hnL hLr ?_, hR.reparent hnR hRr ?_⟩)
    ?_ ?_ ?_ hdata
  · intro q hq hr
    refine hsame q (ne_of_mem_of_not_mem hq hsL) hr ?_ (hpar q (mem_mk.mpr (.inr (.inl hq))))
    exact fun hr' => hLR q hq (mem_toList_of_root? hr')
  · intro q hq hr
    refine hsame q (ne_of_mem_of_not_mem hq hsR) ?_ hr (hpar q (mem_mk.mpr (.inr (.inr hq))))
    exact fun hr' => hLR q (mem_toList_of_root? hr') hq
  · simpa using hroot
  · simpa using hhead
  · intro q hq hp
    refine hsame q ?_ ?_ ?_ hp
    · rintro rfl
      exact (hkeys q (mem_mk.mpr (.inl rfl))).2 hq
    · exact fun hr => (hkeys q (mem_mk.mpr (.inr (.inl (mem_toList_of_root? hr))))).2 hq
    · exact fun hr => (hkeys q (mem_mk.mpr (.inr (.inr (mem_toList_of_root? hr))))).2 hq

lemma TreeAt.takeChild
    (h : TreeAt base S t (plug ctx (RbTree.mk .left c L a (RbTree.mk .left sc .nil s N))))
    (hl : L.root? = some l) :
    TreeAt base S (takePlace t (parentOf ctx) a s l) (plug ctx (RbTree.mk .left c L s N)) := by
  obtain ⟨hn, -, hdisj⟩ := nodup_plug h.nodup
  obtain ⟨haL, haR, hnL, hnR, hLR⟩ := nodup_mk_iff.mp hn
  obtain ⟨-, hsN, -, hnN, -⟩ := nodup_mk_iff.mp hnR
  have hfocus := ((rep_plug ctx _).mp h.rep).2
  obtain ⟨hca, hL, hcs, -, hN⟩ := hfocus
  have hlL := mem_toList_of_root? hl
  have hsR : s ∈ (RbTree.mk .left sc .nil s N).toList := mem_mk.mpr (.inl rfl)
  have hNR : ∀ q ∈ N.toList, q ∈ (RbTree.mk .left sc .nil s N).toList := fun q hq =>
    mem_mk.mpr (.inr (.inr hq))
  have hold : ∀ q ∈ (RbTree.mk .left c L s N).toList,
      q ∈ (RbTree.mk .left c L a (RbTree.mk .left sc .nil s N)).toList := by
    intro q hq
    obtain rfl | hq | hq := mem_mk.mp hq
    · exact mem_mk.mpr (.inr (.inr hsR))
    · exact mem_mk.mpr (.inr (.inl hq))
    · exact mem_mk.mpr (.inr (.inr (hNR q hq)))
  have hkeys : ∀ q ∈ (RbTree.mk .left c L s N).toList, q ∈ S ∧ q ∉ ctxKeys ctx := fun q hq =>
    ⟨h.sub q (mem_plug.mpr (.inl (hold q hq))), hdisj q (hold q hq)⟩
  have hsL : s ∉ L.toList := fun hmem => hLR s hmem hsR
  have hls : l ≠ s := ne_of_mem_of_not_mem hlL hsL
  have hpar : ∀ q, parentOf ctx = some q → q ≠ s ∧ q ≠ l ∧ q ≠ a := by
    intro q hq
    have hmem := mem_ctxKeys_of_parentOf hq
    refine ⟨?_, ?_, ?_⟩
    · rintro rfl
      exact (hkeys q (mem_mk.mpr (.inl rfl))).2 hmem
    · rintro rfl
      exact (hkeys q (mem_mk.mpr (.inr (.inl hlL)))).2 hmem
    · rintro rfl
      exact hdisj q (mem_mk.mpr (.inl rfl)) hmem
  obtain ⟨hdata, hroot, hlinks, hlinkl, hhead, hsame⟩ := takePlace_spec h (root?_mk ..)
    (fun _ _ => rfl) h.data (hkeys s (mem_mk.mpr (.inl rfl))).1
    (hkeys l (mem_mk.mpr (.inr (.inl hlL)))).1 (ne_of_mem_of_not_mem hsR haR)
    (ne_of_mem_of_not_mem hlL haL) hls hpar
  refine h.substitute hL hN (nodup_mk_iff.mpr ⟨hsL, hsN, hnL, hnN, fun q hq hq' => ?_⟩) hkeys hdata
    hroot ?_ ?_ ?_ hhead ?_
  · exact hLR q hq (hNR q hq')
  · rw [hlinks, hca, hcs]
    rfl
  · intro q hq
    cases hl.symm.trans hq
    exact hlinkl
  · intro q hq
    have hmem := mem_toList_of_root? hq
    have hql : q ≠ l := by
      rintro rfl
      exact hLR q hlL (hNR q hmem)
    rw [hsame q (ne_of_mem_of_not_mem hmem hsN) hql, ← hpackNodeCondOff_some,
      hN.setParent_root hq]
    exact fun hp => (hkeys q (mem_mk.mpr (.inr (.inr hmem)))).2 (mem_ctxKeys_of_parentOf hp)
  · intro q hqs hql _ hqp
    refine hsame q hqs ?_ hqp
    rintro rfl
    exact hql hl

lemma TreeAt.takeSuccessor (h : TreeAt base S t (plug ctx (RbTree.mk .left c L a R)))
    (hl : L.root? = some l) (hr : R.root? = some r) (hsS : s ∈ S)
    (hsT : s ∉ (plug ctx (RbTree.mk .left c L a R)).toList) :
    TreeAt base S (takePlace ((t.setParent r (hpackNodeOff s)).setKid .right s (hpackNodeOff r))
      (parentOf ctx) a s l) (plug ctx (RbTree.mk .left c L s R)) := by
  obtain ⟨hn, -, hdisj⟩ := nodup_plug h.nodup
  obtain ⟨haL, haR, hnL, hnR, hLR⟩ := nodup_mk_iff.mp hn
  obtain ⟨hca, hL, hR⟩ := rep_mk.mp ((rep_plug ctx _).mp h.rep).2
  simp only [mem_plug, mem_mk, not_or] at hsT
  obtain ⟨⟨hsa, hsL, hsR⟩, hsctx⟩ := hsT
  have hlL := mem_toList_of_root? hl
  have hrR := mem_toList_of_root? hr
  have hkeys : ∀ q ∈ (RbTree.mk .left c L s R).toList, q ∈ S ∧ q ∉ ctxKeys ctx := by
    intro q hq
    obtain rfl | hq := mem_mk.mp hq
    · exact ⟨hsS, hsctx⟩
    · have hold : q ∈ (RbTree.mk .left c L a R).toList := mem_mk.mpr (.inr hq)
      exact ⟨h.sub q (mem_plug.mpr (.inl hold)), hdisj q hold⟩
  have hls : l ≠ s := ne_of_mem_of_not_mem hlL hsL
  have hrs : r ≠ s := ne_of_mem_of_not_mem hrR hsR
  have hlr : l ≠ r := by
    rintro rfl
    exact hLR l hlL hrR
  have hpar : ∀ q, parentOf ctx = some q → q ≠ s ∧ q ≠ l ∧ q ≠ a ∧ q ≠ r := by
    intro q hq
    have hmem := mem_ctxKeys_of_parentOf hq
    refine ⟨?_, ?_, ?_, ?_⟩
    · rintro rfl
      exact hsctx hmem
    · rintro rfl
      exact (hkeys q (mem_mk.mpr (.inr (.inl hlL)))).2 hmem
    · rintro rfl
      exact hdisj q (mem_mk.mpr (.inl rfl)) hmem
    · rintro rfl
      exact (hkeys q (mem_mk.mpr (.inr (.inr hrR)))).2 hmem
  have hl2 : ∀ q, q ≠ s → q ≠ r →
      ((t.setParent r (hpackNodeOff s)).setKid .right s (hpackNodeOff r)).links q = t.links q := by
    intro q hqs hqr
    rw [links_setKid, if_neg hqs, links_setParent, if_neg hqr]
  have hd2 : LinksOnly S base
      ((t.setParent r (hpackNodeOff s)).setKid .right s (hpackNodeOff r)) :=
    (h.data.setParent (hkeys r (mem_mk.mpr (.inr (.inr hrR)))).1 _).setKid .right hsS _
  obtain ⟨hdata, hroot, hlinks, hlinkl, hhead, hsame⟩ := takePlace_spec h (root?_mk ..)
    (fun f hf => have hp := hpar f.key (parentOf_of_head hf); hl2 f.key hp.1 hp.2.2.2) hd2 hsS
    (hkeys l (mem_mk.mpr (.inr (.inl hlL)))).1 hsa (ne_of_mem_of_not_mem hlL haL) hls
    (fun q hq => have hp := hpar q hq; ⟨hp.1, hp.2.1, hp.2.2.1⟩)
  refine h.substitute hL hR (nodup_mk_iff.mpr ⟨hsL, hsR, hnL, hnR, hLR⟩) hkeys hdata hroot
    ?_ ?_ ?_ hhead ?_
  · rw [hlinks, hl2 a (Ne.symm hsa) (ne_of_mem_of_not_mem hrR haR).symm, hca,
      links_setKid, if_pos rfl, hr]
    rfl
  · intro q hq
    cases hl.symm.trans hq
    rw [hlinkl, hl2 l hls hlr]
  · intro q hq
    cases hr.symm.trans hq
    rw [hsame r hrs hlr.symm fun hp => (hpar r hp).2.2.2 rfl, links_setKid,
      if_neg hrs, links_setParent, if_pos rfl]
  · intro q hqs hql hqr hqp
    rw [hsame q hqs (by rintro rfl; exact hql hl) hqp, hl2 q hqs (by rintro rfl; exact hqr hr)]

lemma parentOf_append_cons :
    parentOf (rctx ++ f :: ctx) = some (match rctx with | [] => f.key | g :: _ => g.key) := by
  cases rctx <;> rfl

lemma eraseInner_spec (h : TreeAt base S t (plug ctx (RbTree.mk .left c L a R)))
    (hl : L.root? = some l) (hr : R.root? = some r) :
    ∃ t' rctx sc s N, R = plug rctx (RbTree.mk .left sc .nil s N) ∧ (∀ f ∈ rctx, f.dir = .left) ∧
      eraseInner t a r l = some (t', N.root?, parentOf (rctx ++ ⟨.right, c, s, L⟩ :: ctx), sc) ∧
      TreeAt base S t' (plug (rctx ++ ⟨.right, c, s, L⟩ :: ctx) N) := by
  have hdown : TreeAt base S t (plug (⟨.right, c, a, L⟩ :: ctx) R) := h
  have hfuel : R.toList.length ≤ rbtreeFuel := by
    refine Nat.le_trans ?_ (Nat.le_trans h.length_le (by decide))
    rw [(perm_toList_plug ctx _).length_eq]
    simp only [RbTree.mk, RbTree.toList, List.length_append, List.length_cons]
    omega
  obtain ⟨rctx, sc, s, N, rfl, hdir, hmin⟩ := minLoop_spec R hdown hr hfuel
  have hs := hdown
  rw [← plug_append] at hs
  have hkid : hpackNodeCond (t.kid .right s) = some N.root? := hs.kid_opp_eq
  have hspar := hs.parent_eq
  rw [parentOf_append_cons] at hspar
  simp only [eraseInner, tfwHpackRbtreeMin, hmin, hs.color_eq, hkid, hspar, bind_eq_bind,
    bind_some, parentOf_append_cons]
  cases rctx with
  | nil =>
    refine ⟨_, [], sc, s, N, rfl, hdir, ?_, h.takeChild hl⟩
    simp only [ne_eq, not_true_eq_false, if_false, tfwHpackRbtreeReplace, h.parent_eq,
      bind_eq_bind, bind_some]
    rfl
  | cons f fs =>
    have hkey : f.key ∈ (plug (f :: fs) (RbTree.mk .left sc .nil s N)).toList :=
      mem_plug.mpr (.inr (by simp [ctxKeys]))
    have hfa : a ≠ f.key := by
      rintro rfl
      exact (nodup_mk_iff.mp (nodup_plug h.nodup).1).2.1 hkey
    obtain ⟨hnS, -, hdisjS⟩ := nodup_plug hs.nodup
    have hsT : s ∉ (plug (f :: fs ++ ⟨.right, c, a, L⟩ :: ctx) N).toList := by
      intro hmem
      obtain hmem | hmem := mem_plug.mp hmem
      · exact (nodup_mk_iff.mp hnS).2.1 hmem
      · exact hdisjS s (mem_mk.mpr (.inl rfl)) hmem
    have hsS : s ∈ S := hs.sub s (mem_plug.mpr (.inl (mem_mk.mpr (.inl rfl))))
    obtain ⟨t1, hrun1, ht1⟩ := hs.spliced
    rw [plug_append] at ht1 hsT
    have h1 : TreeAt base S t1 (plug ctx (RbTree.mk .left c L a (plug (f :: fs) N))) := ht1
    obtain ⟨r1, hr1⟩ := Option.ne_none_iff_exists'.mp
      (root?_ne_none_of_mem (mem_plug.mpr (.inr (by simp [ctxKeys])) :
        f.key ∈ (plug (f :: fs) N).toList))
    have hra : r1 ≠ a := by
      rintro rfl
      exact (nodup_mk_iff.mp (nodup_plug h1.nodup).1).2.1 (mem_toList_of_root? hr1)
    have hkid1 : hpackNodeCond (t1.kid .right a) = some (some r1) := hr1 ▸ h1.kid_opp_eq
    have hlinks : (t1.setParent r1 (hpackNodeOff s)).links a = t1.links a := by
      rw [links_setParent, if_neg hra.symm]
    have hright : (t1.setParent r1 (hpackNodeOff s)).kid .right a = hpackNodeOff r1 := by
      rw [kid_eq, hlinks, h1.cell, hr1]
      rfl
    have hpar1 : hpackNodeCond (((t1.setParent r1 (hpackNodeOff s)).setKid .right s
        (hpackNodeOff r1)).parent a) = some (parentOf ctx) := by
      have hsa : a ≠ s := by
        rintro rfl
        exact hsT (mem_plug.mpr (.inr (by simp [ctxKeys])))
      rw [← h1.parent_eq, parent_eq, links_setKid, if_neg hsa, hlinks]
      rfl
    have hplug : plug ctx (RbTree.mk .left c L s (plug (f :: fs) N)) =
        plug (f :: fs ++ ⟨.right, c, s, L⟩ :: ctx) N := by
      rw [plug_append]
      rfl
    refine ⟨_, f :: fs, sc, s, N, rfl, hdir, ?_, hplug ▸ h1.takeSuccessor hl hr1 hsS hsT⟩
    simp only [ne_eq, hfa, not_false_eq_true, if_true, hrun1, hkid1, hright, bind_some]
    simp only [tfwHpackRbtreeReplace, hpar1, bind_eq_bind, bind_some]
    rfl

lemma rbInv_rekey (s : Nat) (h : RbInv (plug ctx (RbTree.mk d c x a y))) :
    RbInv (plug ctx (RbTree.mk d c x s y)) := by
  obtain ⟨n, hbal, hctx, hc⟩ := (rbInv_plug ctx _).mp h
  refine (rbInv_plug ctx _).mpr ⟨n, ?_, hctx, by rwa [color_mk] at hc ⊢⟩
  cases c with
  | red => exact bal_mk_red.mpr (bal_mk_red.mp hbal)
  | black => exact bal_mk_black.mpr (bal_mk_black.mp hbal)

lemma deficient_of_black (h : RbInv (plug ctx (RbTree.mk d .black .nil s N))) :
    Deficient ctx N := by
  obtain ⟨n, hbal, hctx, -⟩ := (rbInv_plug ctx _).mp h
  obtain ⟨m, rfl, hnil, hN⟩ := bal_mk_black.mp hbal
  refine ⟨m, hctx, ?_⟩
  cases hc : N.color with
  | black => exact .inl ⟨rfl, hN⟩
  | red => exact .inr ⟨rfl, hN.paint_black hc⟩

lemma rbInv_of_red (h : RbInv (plug ctx (RbTree.mk d .red .nil s N))) : RbInv (plug ctx N) := by
  obtain ⟨n, hbal, hctx, -⟩ := (rbInv_plug ctx _).mp h
  obtain ⟨-, hc, -, hN⟩ := bal_mk_red.mp hbal
  exact (rbInv_plug ctx N).mpr ⟨n, hN, hctx, .inl hc⟩

/-- The end of `tfw_hpack_rbtree_erase`: the tree is rebalanced if a black node
has left the path. -/
theorem erase_rebalance (h : TreeAt base S t (plug ctx N))
    (hrb : RbInv (plug ctx (RbTree.mk d sc .nil s N))) :
    ∃ t' T', (if sc = .black ∧ t.root ≠ none then
        tfwHpackRbtreeDelRebalance t N.root? (parentOf ctx) else some t) = some t' ∧
      TreeAt base S t' T' ∧ T'.toList = (plug ctx N).toList ∧ RbInv T' := by
  cases sc with
  | red => exact ⟨t, _, by simp, h, rfl, rbInv_of_red hrb⟩
  | black =>
    by_cases hroot : t.root = none
    · refine ⟨t, _, by simp [hroot], h, rfl, ?_⟩
      rw [RbTree.root?_eq_none.mp (h.root.symm.trans hroot)]
      exact ⟨rfl, 0, rfl⟩
    · rw [if_pos ⟨rfl, hroot⟩]
      exact delRebalance_spec h (deficient_of_black hrb) hroot

/-- `tfw_hpack_rbtree_erase` takes the node out of the tree. -/
theorem rbtreeErase_spec (h : TreeAt base S t T) (hrb : RbInv T) (ha : a ∈ T.toList) :
    ∃ t' T' xs ys, tfwHpackRbtreeErase t a = some t' ∧ TreeAt base S t' T' ∧
      T.toList = xs ++ a :: ys ∧ T'.toList = xs ++ ys ∧ RbInv T' := by
  obtain ⟨ctx, c, L, R, rfl⟩ := exists_plug_of_mem ha
  obtain ⟨xs, ys, hlist⟩ := toList_plug ctx
  have hmk : TreeAt base S t (plug ctx (RbTree.mk .left c L a R)) := h
  have hright : hpackNodeCond (t.kid .right a) = some R.root? := hmk.kid_opp_eq
  simp only [tfwHpackRbtreeErase, hmk.parent_eq, hmk.kid_eq, hright, hmk.color_eq,
    bind_eq_bind, bind_some]
  cases hL : L.root? with
  | none =>
    cases RbTree.root?_eq_none.mp hL
    obtain ⟨t1, hrun1, ht1⟩ := hmk.spliced
    obtain ⟨t', T', hrun, hT', hkeys, hrb'⟩ := erase_rebalance (d := .left) ht1 hrb
    refine ⟨t', T', xs, R.toList ++ ys, ?_, hT', ?_, ?_, hrb'⟩
    · simp only [hrun1, bind_some, hrun]
    · simp [hlist]
    · simp [hkeys, hlist]
  | some l =>
    cases hR : R.root? with
    | none =>
      cases RbTree.root?_eq_none.mp hR
      have hmk' : TreeAt base S t (plug ctx (RbTree.mk .right c .nil a L)) := h
      obtain ⟨t1, hrun1, ht1⟩ := hmk'.spliced
      obtain ⟨t', T', hrun, hT', hkeys, hrb'⟩ := erase_rebalance (d := .right) ht1 hrb
      rw [hL] at hrun1 hrun
      refine ⟨t', T', xs ++ L.toList, ys, ?_, hT', ?_, ?_, hrb'⟩
      · simp only [hrun1, bind_some, hrun]
      · simp [hlist]
      · simp [hkeys, hlist]
    | some r =>
      obtain ⟨t1, rctx, sc, s, N, rfl, hdir, hrun1, ht1⟩ := eraseInner_spec hmk hL hR
      have hrb1 : RbInv (plug (rctx ++ ⟨.right, c, s, L⟩ :: ctx)
        (RbTree.mk .left sc .nil s N)) := by
        rw [plug_append]
        exact rbInv_rekey (d := .right) s hrb
      obtain ⟨t', T', hrun, hT', hkeys, hrb'⟩ := erase_rebalance ht1 hrb1
      have hsucc := toList_plug_left hdir (x := RbTree.mk .left sc .nil s N) (y := N) (s := s) rfl
      refine ⟨t', T', xs ++ L.toList, s :: (plug rctx N).toList ++ ys, ?_, hT', ?_, ?_, hrb'⟩
      · simp only [hrun1, bind_some, hrun]
      · simp [hlist, hsucc]
      · rw [hkeys, plug_append, plug, hlist]
        simp [RbTree.mk]

theorem rbtree_add_erase {T : RbTree Nat} (h : TreeAt base S t T) (hrb : RbInv T) :
    (∀ it new, IsPlace T it → new ∈ S → new ∉ T.toList →
      ∃ t' T', tfwHpackRbtreeAdd t new it = some t' ∧ TreeAt base S t' T' ∧ RbInv T' ∧
        Inserted T it new T') ∧
      ∀ a ∈ T.toList, ∃ t' T' xs ys, tfwHpackRbtreeErase t a = some t' ∧ TreeAt base S t' T' ∧
        RbInv T' ∧ T.toList = xs ++ a :: ys ∧ T'.toList = xs ++ ys := by
  constructor
  · intro it new hplace hS hnew
    obtain ⟨t', T', hrun, hT', hin, hrb'⟩ := rbtreeAdd_spec h hrb hplace hS hnew
    exact ⟨t', T', hrun, hT', hrb', hin⟩
  · intro a ha
    obtain ⟨t', T', xs, ys, hrun, hT', hlist, hlist', hrb'⟩ := rbtreeErase_spec h hrb ha
    exact ⟨t', T', xs, ys, hrun, hT', hrb', hlist, hlist'⟩

/-- Six nodes; the black leaf 9 has a red brother, and a red child of 33 would need a rotation. -/
def sixNodes : TfwHPackTree where
  rbuf
    | 4 => ⟨0, .black, -1, 120, 72⟩
    | 10 => ⟨0, .black, 24, -1, -1⟩
    | 16 => ⟨0, .red, 24, 168, 216⟩
    | 22 => ⟨0, .black, 120, -1, -1⟩
    | 28 => ⟨0, .black, 120, -1, 264⟩
    | 34 => ⟨0, .red, 216, -1, -1⟩
    | _ => ⟨0, .black, -1, -1, -1⟩
  root := some 3

def sixKeys : RbTree Nat :=
  .node .black
    (.node .red (.node .black .nil 21 .nil) 15 (.node .black .nil 27 (.node .red .nil 33 .nil))) 3
    (.node .black .nil 9 .nil)

theorem rbtree_add_erase_sixNodes :
    (∃ t' T', tfwHpackRbtreeAdd sixNodes 39 ⟨some 33, .right⟩ = some t' ∧
      TreeAt sixNodes [3, 9, 15, 21, 27, 33, 39] t' T' ∧ RbInv T' ∧
      Inserted sixKeys ⟨some 33, .right⟩ 39 T') ∧
    ∃ t' T' xs ys, tfwHpackRbtreeErase sixNodes 9 = some t' ∧
      TreeAt sixNodes [3, 9, 15, 21, 27, 33, 39] t' T' ∧ RbInv T' ∧
      [21, 15, 27, 33, 3, 9] = xs ++ 9 :: ys ∧ T'.toList = xs ++ ys := by
  have htree : TreeAt sixNodes [3, 9, 15, 21, 27, 33, 39] sixNodes sixKeys := {
    root := rfl
    rep := ⟨rfl, ⟨rfl, ⟨rfl, trivial, trivial⟩, rfl, trivial, rfl, trivial, trivial⟩,
      rfl, trivial, trivial⟩
    nodup := by decide
    sub := by decide
    bound := by decide
    data := LinksOnly.refl _ _ }
  have hrb : RbInv sixKeys :=
    ⟨rfl, 2, ⟨rfl, rfl, ⟨rfl, rfl⟩, rfl, rfl, rfl, rfl, rfl⟩, rfl, rfl⟩
  obtain ⟨hadd, herase⟩ := rbtree_add_erase htree hrb
  refine ⟨hadd ⟨some 33, .right⟩ 39 ?_ (by decide) (by decide), herase 9 (by decide)⟩
  refine ⟨[⟨.right, .red, 33, .nil⟩, ⟨.right, .black, 27, .nil⟩,
    ⟨.right, .red, 15, .node .black .nil 21 .nil⟩,
    ⟨.left, .black, 3, .node .black .nil 9 .nil⟩], rfl, rfl, ?_⟩
  rintro f ⟨⟩
  rfl

end Tempesta.Hpack
