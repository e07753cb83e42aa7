import Tempesta.Hpack.EncoderTree

/-!
The buffer as a picture of a tree. `TreeAt` says that the links in the buffer
are those of a tree, and that since some earlier buffer nothing but links of
the nodes in `S` has changed. Painting and rotating a node act on the picture
as they should; the algorithms above are built from these two.
-/

namespace Tempesta.Hpack
open List RbLib RbTree TfwHPackTree Links

/-- Outside the links of the nodes in `S` the buffers are equal. -/
structure LinksOnly (S : List Nat) (t t' : TfwHPackTree) : Prop where
  hdrLen : ∀ i, (t'.rbuf i).hdrLen = (t.rbuf i).hdrLen
  word : ∀ i, (∀ p ∈ S, i ≠ p + 1) → t'.rbuf i = t.rbuf i

lemma LinksOnly.refl (S : List Nat) (t : TfwHPackTree) : LinksOnly S t t :=
  ⟨fun _ => rfl, fun _ _ => rfl⟩

variable {t : TfwHPackTree} {child : Option Nat} {off : Int16} {q : Nat} {S : List Nat}
  {t' base : TfwHPackTree} {p a b old : Nat} {w : Word} {f : Frame Nat} {c c' : Color}
  {ctx : Ctx Nat} {d : Dir} {x y T T' z : RbTree Nat}

lemma LinksOnly.setWord (h : LinksOnly S t t') (hp : p ∈ S)
    (hw : w.hdrLen = (t'.rbuf (p + 1)).hdrLen) : LinksOnly S t (t'.setWord (p + 1) w) := by
  refine ⟨fun i => ?_, fun i hi => ?_⟩
  · by_cases hip : i = p + 1
    · simp [TfwHPackTree.setWord, hip, hw, h.hdrLen]
    · simp [TfwHPackTree.setWord, hip, h.hdrLen]
  · simp [TfwHPackTree.setWord, hi p hp, h.word i hi]

lemma LinksOnly.setColor (h : LinksOnly S t t') (hp : p ∈ S) (c : Color) :
    LinksOnly S t (t'.setColor p c) := h.setWord hp rfl

lemma LinksOnly.setParent (h : LinksOnly S t t') (hp : p ∈ S) (off : Int16) :
    LinksOnly S t (t'.setParent p off) := h.setWord hp rfl

lemma LinksOnly.setKid (h : LinksOnly S t t') (d : Dir) (hp : p ∈ S) (off : Int16) :
    LinksOnly S t (t'.setKid d p off) := by
  cases d
  · exact h.setWord hp rfl
  · exact h.setWord hp rfl

lemma LinksOnly.setRoot (h : LinksOnly S t t') (r : Option Nat) :
    LinksOnly S t { t' with root := r } := ⟨h.hdrLen, h.word⟩

structure TreeAt (base : TfwHPackTree) (S : List Nat) (t : TfwHPackTree) (T : RbTree Nat) :
    Prop where
  root : t.root = T.root?
  rep : LinkRep hpackNodeCondOff t.links none T
  nodup : T.toList.Nodup
  sub : ∀ a ∈ T.toList, a ∈ S
  bound : ∀ a ∈ S, a < 512
  data : LinksOnly S base t

lemma TreeAt.lt (h : TreeAt base S t T) (ha : a ∈ T.toList) : a < 512 :=
  h.bound a (h.sub a ha)

lemma TreeAt.length_le (h : TreeAt base S t T) : T.toList.length ≤ 512 := by
  have hsub : T.toList ⊆ range 512 := fun a ha => List.mem_range.mpr (h.lt ha)
  simpa using (subperm_of_subset h.nodup hsub).length_le

lemma TreeAt.ctx_length_le (h : TreeAt base S t (plug ctx T)) : ctx.length ≤ 512 := by
  refine Nat.le_trans ?_ h.length_le
  rw [(perm_toList_plug ctx T).length_eq, length_append]
  exact Nat.le_trans (length_le_ctxKeys ctx) (Nat.le_add_left _ _)

lemma mem_plug : a ∈ (plug ctx T).toList ↔ a ∈ T.toList ∨ a ∈ ctxKeys ctx := by
  rw [(perm_toList_plug ctx T).mem_iff, mem_append]

lemma mem_mk : b ∈ (RbTree.mk d c x a y).toList ↔ b = a ∨ b ∈ x.toList ∨ b ∈ y.toList := by
  rw [(perm_toList_mk d c x a y).mem_iff, mem_cons, mem_append]

lemma mem_ctxKeys_of_parentOf (h : parentOf ctx = some a) : a ∈ ctxKeys ctx := by
  cases ctx with
  | nil => cases h
  | cons f fs =>
    cases h
    simp [ctxKeys]

lemma parentOf_of_head (h : f ∈ ctx.head?) : parentOf ctx = some f.key := by
  cases ctx with
  | nil => cases h
  | cons g fs =>
    cases h
    rfl

lemma TreeAt.cell (h : TreeAt base S t (plug ctx (RbTree.mk d c x a y))) :
    t.links a = Links.of d c (hpackNodeCondOff (parentOf ctx)) (hpackNodeCondOff x.root?)
      (hpackNodeCondOff y.root?) :=
  (rep_mk.mp ((rep_plug ctx _).mp h.rep).2).1

lemma TreeAt.color_eq (h : TreeAt base S t (plug ctx (RbTree.mk d c x a y))) :
    t.color a = c := by
  rw [TfwHPackTree.color_eq, h.cell, Links.of_color]

lemma TreeAt.parent_eq (h : TreeAt base S t (plug ctx (RbTree.mk d c x a y))) :
    hpackNodeCond (t.parent a) = some (parentOf ctx) := by
  rw [TfwHPackTree.parent_eq, h.cell, Links.of_parent]
  refine hpackNodeCond_condOff fun p hp => h.lt ?_
  exact mem_plug.mpr (.inr (mem_ctxKeys_of_parentOf hp))

lemma TreeAt.kid_eq (h : TreeAt base S t (plug ctx (RbTree.mk d c x a y))) :
    hpackNodeCond (t.kid d a) = some x.root? := by
  rw [TfwHPackTree.kid_eq, h.cell, Links.of_kid]
  refine hpackNodeCond_condOff fun p hp => h.lt ?_
  exact mem_plug.mpr (.inl (mem_mk.mpr (.inr (.inl (mem_toList_of_root? hp)))))

lemma TreeAt.kid_opp_eq (h : TreeAt base S t (plug ctx (RbTree.mk d c x a y))) :
    hpackNodeCond (t.kid d.opp a) = some y.root? := by
  rw [← mk_opp] at h
  exact h.kid_eq

/-- What it takes to replace the focus: the new one is in the buffer, and the
frame above it, or the root, refers to it. -/
theorem TreeAt.refocus (h : TreeAt base S t (plug ctx T)) (hnodup : T'.toList.Nodup)
    (hkeys : ∀ a ∈ T'.toList, a ∈ S ∧ a ∉ ctxKeys ctx)
    (hrep : LinkRep hpackNodeCondOff t'.links (parentOf ctx) T')
    (hroot : t'.root = if ctx = [] then T'.root? else t.root)
    (hhead : ∀ f ∈ ctx.head?,
      t'.links f.key = (t.links f.key).setKid f.dir (hpackNodeCondOff T'.root?))
    (hsame : ∀ a ∈ ctxKeys ctx, parentOf ctx ≠ some a → t'.links a = t.links a)
    (hdata : LinksOnly S base t') : TreeAt base S t' (plug ctx T') := by
  obtain ⟨-, hn, -⟩ := nodup_plug h.nodup
  refine ⟨?_, (rep_plug ctx T').mpr ⟨?_, hrep⟩, ?_, ?_, h.bound, hdata⟩
  · cases ctx with
    | nil => exact hroot
    | cons f fs =>
      rw [hroot, if_neg (by simp), h.root]
      exact root?_plug_congr fs (by simp)
  · exact ((rep_plug ctx T).mp h.rep).1.refill hn hhead hsame
  · rw [(perm_toList_plug ctx T').nodup_iff, nodup_append]
    refine ⟨hnodup, hn, ?_⟩
    rintro a ha b hb rfl
    exact (hkeys a ha).2 hb
  · intro a ha
    obtain ha | ha := mem_plug.mp ha
    · exact (hkeys a ha).1
    · exact h.sub a (mem_plug.mpr (.inr ha))

lemma TreeAt.head (h : TreeAt base S t (plug ctx T)) (hf : f ∈ ctx.head?) :
    (t.links f.key).kid f.dir = hpackNodeCondOff T.root? ∧
      (t.links f.key).kid f.dir.opp = hpackNodeCondOff f.sib.root? := by
  cases ctx with
  | nil => cases hf
  | cons g fs =>
    cases hf
    have hcell := ((rep_plug _ T).mp h.rep).1.1
    rw [hcell]
    simp

lemma TreeAt.head_setKid (h : TreeAt base S t (plug ctx T)) (hf : f ∈ ctx.head?) :
    (t.links f.key).setKid f.dir (hpackNodeCondOff T.root?) = t.links f.key := by
  cases ctx with
  | nil => cases hf
  | cons g fs =>
    cases hf
    have hcell := ((rep_plug _ T).mp h.rep).1.1
    rw [hcell]
    simp

lemma nodup_mk_iff : (RbTree.mk d c x a y).toList.Nodup ↔
    a ∉ x.toList ∧ a ∉ y.toList ∧ x.toList.Nodup ∧ y.toList.Nodup ∧
      ∀ b ∈ x.toList, b ∉ y.toList := by
  rw [(perm_toList_mk d c x a y).nodup_iff, nodup_cons, mem_append, not_or,
    nodup_append]
  constructor
  · rintro ⟨⟨hax, hay⟩, hx, hy, hxy⟩
    exact ⟨hax, hay, hx, hy, fun b hb hb' => hxy b hb b hb' rfl⟩
  · rintro ⟨hax, hay, hx, hy, hxy⟩
    refine ⟨⟨hax, hay⟩, hx, hy, ?_⟩
    rintro b hb e he rfl
    exact hxy b hb he

lemma TreeAt.setColor (h : TreeAt base S t (plug ctx (RbTree.mk d c x a y))) (c' : Color) :
    TreeAt base S (t.setColor a c') (plug ctx (RbTree.mk d c' x a y)) := by
  obtain ⟨hn, -, hdisj⟩ := nodup_plug h.nodup
  obtain ⟨hcell, hx, hy⟩ := rep_mk.mp ((rep_plug ctx _).mp h.rep).2
  obtain ⟨hax, hay, -, -, -⟩ := nodup_mk_iff.mp hn
  have ha : a ∈ (RbTree.mk d c x a y).toList := mem_mk.mpr (.inl rfl)
  have hsame : ∀ b, b ≠ a → (t.setColor a c').links b = t.links b := fun b hb => by
    rw [links_setColor, if_neg hb]
  have hlist : (RbTree.mk d c' x a y).toList = (RbTree.mk d c x a y).toList :=
    toList_mk_congr rfl rfl
  refine h.refocus (hlist ▸ hn) ?_ (rep_mk.mpr ⟨?_, hx.congr ?_, hy.congr ?_⟩) ?_ ?_ ?_
    (h.data.setColor (h.sub a (mem_plug.mpr (.inl ha))) c')
  · intro b hb
    rw [hlist] at hb
    exact ⟨h.sub b (mem_plug.mpr (.inl hb)), hdisj b hb⟩
  · rw [links_setColor, if_pos rfl, hcell, of_setColor]
  · exact fun b hb => hsame b (ne_of_mem_of_not_mem hb hax)
  · exact fun b hb => hsame b (ne_of_mem_of_not_mem hb hay)
  · split
    · next hctx =>
        subst hctx
        simpa using h.root
    · rfl
  · intro f hf
    have hkey : f.key ≠ a := by
      rintro rfl
      exact hdisj _ ha (mem_ctxKeys_of_parentOf (parentOf_of_head hf))
    rw [hsame _ hkey]
    simpa using (h.head_setKid hf).symm
  · intro b hb _
    refine hsame b ?_
    rintro rfl
    exact hdisj b ha hb

/-- The effect of `relinkParent` above the focus. -/
structure Relinked (ctx : Ctx Nat) (new : Option Nat) (t t' : TfwHPackTree) : Prop where
  root : t'.root = if ctx = [] then new else t.root
  head : ∀ f ∈ ctx.head?, t'.links f.key = (t.links f.key).setKid f.dir (hpackNodeCondOff new)
  same : ∀ q, parentOf ctx ≠ some q → t'.links q = t.links q

lemma relinkParent_spec (h : TreeAt base S t (plug ctx T)) (hold : T.root? = some old)
    (new : Option Nat) (hsame : ∀ f ∈ ctx.head?, t'.links f.key = t.links f.key)
    (hdata : LinksOnly S base t') :
    Relinked ctx new t' (relinkParent t' (parentOf ctx) old new) ∧
      LinksOnly S base (relinkParent t' (parentOf ctx) old new) := by
  cases ctx with
  | nil => exact ⟨⟨rfl, by rintro f ⟨⟩, fun q _ => rfl⟩, hdata.setRoot new⟩
  | cons f fs =>
    have hkey : f.key ∈ S := h.sub _ (mem_plug.mpr (.inr (by simp [ctxKeys])))
    have hlinks := hsame f rfl
    obtain ⟨hkid, hsib⟩ := h.head (f := f) rfl
    have hset : relinkParent t' (parentOf (f :: fs)) old new =
        t'.setKid f.dir f.key (hpackNodeCondOff new) := by
      have hlt : old < 512 := h.lt (mem_plug.mpr (.inl (mem_toList_of_root? hold)))
      simp only [relinkParent, parentOf, TfwHPackTree.kid_eq, hlinks]
      cases hd : f.dir with
      | left =>
        rw [hd, hold] at hkid
        rw [hkid, hpackNodeCond_condOff (by rintro p ⟨rfl⟩; exact hlt)]
        simp [hpackNodeCondOff, hpackNodeOff_not_empty hlt]
      | right =>
        have hne : f.sib.root? ≠ some old := by
          intro heq
          refine (nodup_plug h.nodup).2.2 old (mem_toList_of_root? hold) ?_
          simp [ctxKeys, mem_toList_of_root? heq]
        simp only [hd, Dir.opp] at hsib
        rw [hsib, hpackNodeCond_condOff fun p hp => h.lt (mem_plug.mpr (.inr ?_))]
        · rw [if_neg (by simp [hne])]
        · simp [ctxKeys, mem_toList_of_root? hp]
    rw [hset]
    refine ⟨⟨?_, ?_, ?_⟩, hdata.setKid f.dir hkey _⟩
    · simp
    · rintro g ⟨rfl⟩
      rw [links_setKid, if_pos rfl]
    · intro q hq
      rw [links_setKid, if_neg]
      rintro rfl
      exact hq rfl

lemma links_adopt :
    (adopt t child off).links q =
      if child = some q then (t.links q).setParent off else t.links q := by
  cases child with
  | none => simp [adopt]
  | some e =>
    simp only [adopt, links_setParent, Option.some.injEq]
    by_cases heq : q = e
    · simp [heq]
    · simp [heq, Ne.symm heq]

@[simp] lemma root_adopt : (adopt t child off).root = t.root := by
  cases child <;> rfl

lemma LinksOnly.adopt (h : LinksOnly S t t') (hc : ∀ q, child = some q → q ∈ S) (off : Int16) :
    LinksOnly S t (adopt t' child off) := by
  cases child with
  | none => exact h
  | some q => exact h.setParent (hc q rfl) off

lemma rotate_eq (h : TreeAt base S t (plug ctx (RbTree.mk d c x a (RbTree.mk d c' y b z)))) :
    ∃ t', rotate d t a = some t' ∧ LinksOnly S base t' ∧
      (t'.root = if ctx = [] then some b else t.root) ∧
      t'.links a = Links.of d c (hpackNodeOff b) (hpackNodeCondOff x.root?)
        (hpackNodeCondOff y.root?) ∧
      t'.links b = Links.of d c' (hpackNodeCondOff (parentOf ctx)) (hpackNodeOff a)
        (hpackNodeCondOff z.root?) ∧
      (∀ q, y.root? = some q → t'.links q = (t.links q).setParent (hpackNodeOff a)) ∧
      (∀ f ∈ ctx.head?, t'.links f.key = (t.links f.key).setKid f.dir (hpackNodeOff b)) ∧
      ∀ q, q ≠ a → q ≠ b → y.root? ≠ some q → parentOf ctx ≠ some q →
        t'.links q = t.links q := by
  obtain ⟨hn, -, hdisj⟩ := nodup_plug h.nodup
  obtain ⟨hax, hay, hxn, hyn, hxy⟩ := nodup_mk_iff.mp hn
  obtain ⟨hby, hbz, -, -, -⟩ := nodup_mk_iff.mp hyn
  have hb := h
  rw [← mk_opp, ← plug_cons ⟨d.opp, c, a, x⟩] at hb
  have hab : a ≠ b := fun heq => hay (heq ▸ mem_mk.mpr (.inl rfl))
  have hyroot : ∀ q, y.root? = some q → q ≠ a ∧ q ≠ b ∧ q ∉ ctxKeys ctx := by
    intro q hq
    have hmem := mem_toList_of_root? hq
    refine ⟨?_, ne_of_mem_of_not_mem hmem hby, hdisj q ?_⟩
    · rintro rfl
      exact hay (mem_mk.mpr (.inr (.inl hmem)))
    · exact mem_mk.mpr (.inr (.inr (mem_mk.mpr (.inr (.inl hmem)))))
  have hpar : ∀ q, parentOf ctx = some q → q ≠ a ∧ q ≠ b ∧ y.root? ≠ some q := by
    intro q hq
    have hmem := mem_ctxKeys_of_parentOf hq
    refine ⟨?_, ?_, ?_⟩
    · rintro rfl
      exact hdisj q (mem_mk.mpr (.inl rfl)) hmem
    · rintro rfl
      exact hdisj q (mem_mk.mpr (.inr (.inr (mem_mk.mpr (.inl rfl))))) hmem
    · exact fun hq' => (hyroot q hq').2.2 hmem
  have hcella := h.cell
  have hcellb := hb.cell
  have hSa : a ∈ S := h.sub a (mem_plug.mpr (.inl (mem_mk.mpr (.inl rfl))))
  have hSb : b ∈ S := hb.sub b (mem_plug.mpr (.inl (mem_mk.mpr (.inl rfl))))
  have hSy : ∀ q, y.root? = some q → q ∈ S := fun q hq => hb.sub q
    (mem_plug.mpr (.inl (mem_mk.mpr (.inr (.inl (mem_toList_of_root? hq))))))
  let t1 := t.setKid d.opp a (t.kid d b)
  let t2 := adopt t1 y.root? (hpackNodeOff a)
  let t3 := t2.setParent b (t2.parent a)
  let t4 := relinkParent t3 (parentOf ctx) a (some b)
  let t5 := t4.setKid d b (hpackNodeOff a)
  have hl1 : ∀ q, q ≠ a → t1.links q = t.links q := fun q hq => by
    simp only [t1, links_setKid, if_neg hq]
  have hl3 : ∀ q, q ≠ a → q ≠ b → y.root? ≠ some q → t3.links q = t.links q := by
    intro q hqa hqb hqy
    simp only [t3, t2, links_setParent, if_neg hqb, links_adopt, if_neg hqy, hl1 q hqa]
  have hl3a : t3.links a = of d c (hpackNodeCondOff (parentOf ctx))
      (hpackNodeCondOff x.root?) (hpackNodeCondOff y.root?) := by
    have hya : y.root? ≠ some a := fun heq => (hyroot a heq).1 rfl
    simp only [t3, t2, t1, links_setParent, if_neg hab, links_adopt, if_neg hya,
      links_setKid, hcella, TfwHPackTree.kid_eq, hcellb]
    simp
  have hl3b : t3.links b = of d c' (hpackNodeCondOff (parentOf ctx))
      (hpackNodeCondOff y.root?) (hpackNodeCondOff z.root?) := by
    have hya : y.root? ≠ some a := fun heq => (hyroot a heq).1 rfl
    have hyb : y.root? ≠ some b := fun heq => (hyroot b heq).2.1 rfl
    simp only [t3, t2, links_setParent, links_adopt, if_neg hyb, hl1 b hab.symm,
      TfwHPackTree.parent_eq, if_neg hya, hcellb]
    simp [t1, links_setKid, hcella]
  have hd3 : LinksOnly S base t3 :=
    ((h.data.setKid d.opp hSa _).adopt hSy _).setParent hSb _
  have hl3f : ∀ f ∈ ctx.head?, t3.links f.key = t.links f.key := fun f hf => by
    obtain ⟨h1, h2, h3⟩ := hpar _ (parentOf_of_head hf)
    exact hl3 _ h1 h2 h3
  obtain ⟨hrel, hd4⟩ := relinkParent_spec h (root?_mk ..) (some b) hl3f hd3
  have hrun : rotate d t a = some (t5.setParent a (hpackNodeOff b)) := by
    have hkb : hpackNodeCond (t1.kid d b) = some y.root? := by
      rw [TfwHPackTree.kid_eq, hl1 b hab.symm, ← TfwHPackTree.kid_eq, hb.kid_eq]
    have hpa : hpackNodeCond (t3.parent a) = some (parentOf ctx) := by
      rw [← h.parent_eq, TfwHPackTree.parent_eq, TfwHPackTree.parent_eq, hl3a, hcella]
      simp
    simp only [rotate, h.kid_opp_eq, root?_mk, Option.bind_eq_bind, Option.bind_some]
    rw [hkb, Option.bind_some, hpa, Option.bind_some]
  refine ⟨_, hrun, (hd4.setKid d hSb _).setParent hSa _, ?_, ?_, ?_, ?_, ?_, ?_⟩
  · simp [t5, t4, hrel.root, t3, t2, t1]
  · rw [links_setParent, if_pos rfl, links_setKid, if_neg hab,
      hrel.same a fun hp => (hpar a hp).1 rfl, hl3a, of_setParent]
  · rw [links_setParent, if_neg hab.symm, links_setKid, if_pos rfl,
      hrel.same b fun hp => (hpar b hp).2.1 rfl, hl3b, of_setKid]
  · intro q hq
    obtain ⟨hqa, hqb, hqc⟩ := hyroot q hq
    rw [links_setParent, if_neg hqa, links_setKid, if_neg hqb,
      hrel.same q fun hp => hqc (mem_ctxKeys_of_parentOf hp), links_setParent,
      if_neg hqb, links_adopt, if_pos hq, hl1 q hqa]
  · intro f hf
    obtain ⟨hfa, hfb, hfy⟩ := hpar f.key (parentOf_of_head hf)
    rw [links_setParent, if_neg hfa, links_setKid, if_neg hfb,
      hrel.head f hf, hl3 _ hfa hfb hfy]
    rfl
  · intro q hqa hqb hqy hqp
    rw [links_setParent, if_neg hqa, links_setKid, if_neg hqb,
      hrel.same q hqp, hl3 q hqa hqb hqy]

lemma TreeAt.rotated (h : TreeAt base S t (plug ctx (RbTree.mk d c x a (RbTree.mk d c' y b z)))) :
    ∃ t', rotate d t a = some t' ∧
      TreeAt base S t' (plug ctx (RbTree.mk d c' (RbTree.mk d c x a y) b z)) := by
  obtain ⟨t', hrun, hdata, hroot, hla, hlb, hly, hhead, hsame⟩ := rotate_eq h
  refine ⟨t', hrun, ?_⟩
  obtain ⟨hn, -, hdisj⟩ := nodup_plug h.nodup
  have hlist := toList_rotate d c c c' c' x y z a b
  obtain ⟨hax, hay, hxn, hyn, hxy⟩ := nodup_mk_iff.mp hn
  obtain ⟨hby, hbz, hyn', -, hyz⟩ := nodup_mk_iff.mp hyn
  have hfocus := ((rep_plug ctx _).mp h.rep).2
  simp only [rep_mk] at hfocus
  obtain ⟨-, hx, -, hy, hz⟩ := hfocus
  have hpar : ∀ q, q ∈ (RbTree.mk d c x a (RbTree.mk d c' y b z)).toList → parentOf ctx ≠ some q :=
    fun q hq hp => hdisj q hq (mem_ctxKeys_of_parentOf hp)
  refine h.refocus (hlist ▸ hn) ?_ (rep_mk.mpr ⟨?_, rep_mk.mpr ⟨?_, hx.congr ?_, ?_⟩, hz.congr ?_⟩)
    ?_ ?_ ?_ hdata
  · intro q hq
    rw [← hlist] at hq
    exact ⟨h.sub q (mem_plug.mpr (.inl hq)), hdisj q hq⟩
  · simpa using hlb
  · simpa using hla
  · intro q hq
    have hmem := hxy q hq
    simp only [mem_mk, not_or] at hmem
    refine hsame q (ne_of_mem_of_not_mem hq hax) hmem.1 ?_ (hpar q (mem_mk.mpr (.inr (.inl hq))))
    exact fun hr => hmem.2.1 (mem_toList_of_root? hr)
  · refine hy.reparent hyn' hly fun q hq hr => ?_
    refine hsame q ?_ (ne_of_mem_of_not_mem hq hby) hr (hpar q ?_)
    · rintro rfl
      exact hay (mem_mk.mpr (.inr (.inl hq)))
    · exact mem_mk.mpr (.inr (.inr (mem_mk.mpr (.inr (.inl hq)))))
  · intro q hq
    refine hsame q ?_ (ne_of_mem_of_not_mem hq hbz) ?_ (hpar q ?_)
    · rintro rfl
      exact hay (mem_mk.mpr (.inr (.inr hq)))
    · exact fun hr => hyz q (mem_toList_of_root? hr) hq
    · exact mem_mk.mpr (.inr (.inr (mem_mk.mpr (.inr (.inr hq)))))
  · simpa using hroot
  · simpa using hhead
  · intro q hq hp
    refine hsame q ?_ ?_ ?_ hp
    · rintro rfl
      exact hdisj q (mem_mk.mpr (.inl rfl)) hq
    · rintro rfl
      exact hdisj q (mem_mk.mpr (.inr (.inr (mem_mk.mpr (.inl rfl))))) hq
    · intro hr
      refine hdisj q (mem_mk.mpr (.inr (.inr (mem_mk.mpr (.inr (.inl ?_)))))) hq
      exact mem_toList_of_root? hr

end Tempesta.Hpack
