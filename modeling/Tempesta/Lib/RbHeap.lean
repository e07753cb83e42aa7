import Tempesta.Lib.RbTree

/-!
Trees in a heap of linked nodes with parent pointers. `LinkRep` relates a heap to a
tree, for any encoding of the pointers; it splits along a context, so that a
change around one node is checked at that node and at the frame above it.
-/

namespace RbLib

open List
universe u v
variable {P : Type u} {V : Type v}

structure Links (V : Type v) where
  color : Color
  parent : V
  left : V
  right : V

def Links.kid (l : Links V) : Dir → V
  | .left => l.left
  | .right => l.right

def Links.setKid (l : Links V) (d : Dir) (v : V) : Links V :=
  match d with
  | .left => { l with left := v }
  | .right => { l with right := v }

def Links.setColor (l : Links V) (c : Color) : Links V := { l with color := c }

def Links.setParent (l : Links V) (p : V) : Links V := { l with parent := p }

/-- The cell with `x` on the side `d` and `y` on the other one. -/
def Links.of (d : Dir) (c : Color) (p x y : V) : Links V :=
  match d with
  | .left => ⟨c, p, x, y⟩
  | .right => ⟨c, p, y, x⟩

namespace Links
variable (d : Dir) (c c' : Color) (p q x y : V)

@[simp] lemma of_color : (of d c p x y).color = c := by cases d <;> rfl
@[simp] lemma of_parent : (of d c p x y).parent = p := by cases d <;> rfl
@[simp] lemma of_kid : (of d c p x y).kid d = x := by cases d <;> rfl
@[simp] lemma of_kid_opp : (of d c p x y).kid d.opp = y := by cases d <;> rfl

@[simp] lemma of_setKid : (of d c p x y).setKid d q = of d c p q y := by cases d <;> rfl

@[simp] lemma of_setKid_opp : (of d c p x y).setKid d.opp q = of d c p x q := by
  cases d <;> rfl

@[simp] lemma of_setColor : (of d c p x y).setColor c' = of d c' p x y := by
  cases d <;> rfl

@[simp] lemma of_setParent : (of d c p x y).setParent q = of d c q x y := by
  cases d <;> rfl

end Links

/-- The heap holds the tree below `p`, with pointers encoded by `enc`. -/
def LinkRep (enc : Option P → V) (h : P → Links V) : Option P → RbTree P → Prop
  | _, .nil => True
  | p, .node c l a r =>
    h a = ⟨c, enc p, enc l.root?, enc r.root?⟩ ∧
      LinkRep enc h (some a) l ∧ LinkRep enc h (some a) r

/-- The heap holds the context of a hole filled by the tree with root `r`. -/
def LinkRepCtx (enc : Option P → V) (h : P → Links V) : Option P → Ctx P → Prop
  | _, [] => True
  | r, f :: fs =>
    h f.key = Links.of f.dir f.color (enc (parentOf fs)) (enc r) (enc f.sib.root?) ∧
      LinkRep enc h (some f.key) f.sib ∧ LinkRepCtx enc h (some f.key) fs

def ctxKeys : Ctx P → List P
  | [] => []
  | f :: fs => f.key :: (f.sib.toList ++ ctxKeys fs)

variable {enc : Option P → V} {h h' : P → Links V}

@[simp] lemma rep_mk {p : Option P} {d : Dir} {c : Color} {x y : RbTree P} {a : P} :
    LinkRep enc h p (RbTree.mk d c x a y) ↔
      h a = Links.of d c (enc p) (enc x.root?) (enc y.root?) ∧
        LinkRep enc h (some a) x ∧ LinkRep enc h (some a) y := by
  cases d with
  | left => exact Iff.rfl
  | right =>
    simp only [RbTree.mk, LinkRep, Links.of]
    tauto

lemma rep_plug (ctx : Ctx P) (t : RbTree P) :
    LinkRep enc h none (plug ctx t) ↔
      LinkRepCtx enc h t.root? ctx ∧ LinkRep enc h (parentOf ctx) t := by
  induction ctx generalizing t with
  | nil => simp [LinkRepCtx, parentOf]
  | cons f fs ih =>
    rw [plug, ih, rep_mk, RbTree.root?_mk]
    simp only [LinkRepCtx, parentOf]
    tauto

lemma perm_toList_mk (d : Dir) (c : Color) (x : RbTree P) (a : P) (y : RbTree P) :
    (RbTree.mk d c x a y).toList.Perm (a :: (x.toList ++ y.toList)) := by
  cases d with
  | left => exact perm_middle
  | right => exact perm_middle.trans ((perm_append_comm).cons a)

lemma perm_toList_plug (ctx : Ctx P) (t : RbTree P) :
    (plug ctx t).toList.Perm (t.toList ++ ctxKeys ctx) := by
  induction ctx generalizing t with
  | nil => simp [ctxKeys]
  | cons f fs ih =>
    rw [plug]
    refine (ih _).trans ?_
    refine ((perm_toList_mk f.dir f.color t f.key f.sib).append_right _).trans ?_
    simp only [ctxKeys, cons_append, append_assoc]
    exact perm_middle.symm

lemma length_le_ctxKeys (ctx : Ctx P) : ctx.length ≤ (ctxKeys ctx).length := by
  induction ctx with
  | nil => simp
  | cons f fs ih =>
    simp only [ctxKeys, length_cons, length_append]
    omega

variable {t : RbTree P}

lemma root?_plug_cons_mem {f : Frame P} {fs : Ctx P} {r : P}
    (h : (plug (f :: fs) t).root? = some r) : r ∈ ctxKeys (f :: fs) := by
  induction fs generalizing f t with
  | nil =>
    rw [plug, plug, RbTree.root?_mk] at h
    cases h
    simp [ctxKeys]
  | cons g fs ih =>
    rw [plug] at h
    exact mem_cons_of_mem _ (mem_append_right _ (ih h))

lemma LinkRep.congr {p : Option P} (hr : LinkRep enc h p t) (hsame : ∀ a ∈ t.toList, h' a = h a) :
    LinkRep enc h' p t := by
  induction t generalizing p with
  | nil => trivial
  | node c l a r ihl ihr =>
    obtain ⟨hcell, hl, hr'⟩ := hr
    refine ⟨(hsame a (by simp)).trans hcell, ihl hl ?_, ihr hr' ?_⟩
    · exact fun b hb => hsame b (by simp [hb])
    · exact fun b hb => hsame b (by simp [hb])

variable {ctx : Ctx P}

lemma LinkRepCtx.congr {r : Option P} (hr : LinkRepCtx enc h r ctx)
    (hsame : ∀ a ∈ ctxKeys ctx, h' a = h a) : LinkRepCtx enc h' r ctx := by
  induction ctx generalizing r with
  | nil => trivial
  | cons f fs ih =>
    obtain ⟨hcell, hsib, hfs⟩ := hr
    refine ⟨(hsame _ (by simp [ctxKeys])).trans hcell, hsib.congr ?_, ih hfs ?_⟩
    · exact fun a ha => hsame a (by simp [ctxKeys, ha])
    · exact fun a ha => hsame a (by simp [ctxKeys, ha])

/-- Only the root of a tree refers to what is above it. -/
theorem LinkRep.reparent {p q : Option P} (hr : LinkRep enc h p t) (hn : t.toList.Nodup)
    (hroot : ∀ a, t.root? = some a → h' a = (h a).setParent (enc q))
    (hsame : ∀ a ∈ t.toList, t.root? ≠ some a → h' a = h a) : LinkRep enc h' q t := by
  cases t with
  | nil => trivial
  | node c l a r =>
    obtain ⟨hcell, hl, hr'⟩ := hr
    have hna : a ∉ l.toList ∧ a ∉ r.toList := by
      simp only [RbTree.toList, nodup_append, nodup_cons, mem_cons] at hn
      exact ⟨fun ha => hn.2.2 a ha a (.inl rfl) rfl, hn.2.1.1⟩
    refine ⟨by rw [hroot a rfl, hcell, Links.setParent], hl.congr ?_, hr'.congr ?_⟩
    · intro b hb
      refine hsame b (by simp [hb]) ?_
      rintro ⟨rfl⟩
      exact hna.1 hb
    · intro b hb
      refine hsame b (by simp [hb]) ?_
      rintro ⟨rfl⟩
      exact hna.2 hb

lemma LinkRep.setParent_root {p : Option P} (hr : LinkRep enc h p t) {a : P}
    (ha : t.root? = some a) : (h a).setParent (enc p) = h a := by
  cases t with
  | nil => cases ha
  | node c l b r =>
    cases ha
    rw [hr.1]
    rfl

/-- Only the innermost frame refers to what is in the hole. -/
theorem LinkRepCtx.refill {r r' : Option P} (hr : LinkRepCtx enc h r ctx)
    (hn : (ctxKeys ctx).Nodup)
    (hhead : ∀ f ∈ ctx.head?, h' f.key = (h f.key).setKid f.dir (enc r'))
    (hsame : ∀ a ∈ ctxKeys ctx, parentOf ctx ≠ some a → h' a = h a) : LinkRepCtx enc h' r' ctx := by
  cases ctx with
  | nil => trivial
  | cons f fs =>
    obtain ⟨hcell, hsib, hfs⟩ := hr
    simp only [ctxKeys, nodup_cons, mem_append, not_or] at hn
    refine ⟨?_, hsib.congr ?_, hfs.congr ?_⟩
    · rw [hhead f rfl, hcell, Links.of_setKid]
    · intro a ha
      refine hsame a (by simp [ctxKeys, ha]) ?_
      rintro ⟨rfl⟩
      exact hn.1.1 ha
    · intro a ha
      refine hsame a (by simp [ctxKeys, ha]) ?_
      rintro ⟨rfl⟩
      exact hn.1.2 ha

lemma nodup_plug (hn : (plug ctx t).toList.Nodup) :
    t.toList.Nodup ∧ (ctxKeys ctx).Nodup ∧ ∀ a ∈ t.toList, a ∉ ctxKeys ctx := by
  have h := (perm_toList_plug ctx t).nodup_iff.mp hn
  rw [nodup_append] at h
  exact ⟨h.1, h.2.1, fun a ha hc => h.2.2 a ha a hc rfl⟩

end RbLib
