import Mathlib

/-!
Red-black trees as zippers. Both children of a node are addressed through a
direction, so that mirrored cases are one case. A context lists the frames from
the hole up to the root; `RbInv` of a plugged tree splits into the balance of
the focus and of the context, which is the form that an algorithm climbing from
a node to the root keeps.
-/

namespace RbLib
universe u
variable {α : Type u}

inductive Dir where
  | left
  | right
  deriving DecidableEq, Repr

def Dir.opp : Dir → Dir
  | .left => .right
  | .right => .left

@[simp] lemma Dir.opp_opp (d : Dir) : d.opp.opp = d := by
  cases d <;> rfl

variable {d : Dir}

lemma Dir.eq_opp_of_ne {e : Dir} (h : d ≠ e) : d = e.opp := by
  cases d <;> cases e <;> first | rfl | exact absurd rfl h

inductive Color where
  | red
  | black
  deriving DecidableEq, Repr

variable {c : Color}

lemma Color.eq_red_of_ne (h : c ≠ .black) : c = .red := by
  cases c with
  | red => rfl
  | black => exact absurd rfl h

lemma Color.eq_black_of_ne (h : c ≠ .red) : c = .black := by
  cases c with
  | red => exact absurd rfl h
  | black => rfl

inductive RbTree (α : Type u) where
  | nil
  | node (color : Color) (l : RbTree α) (key : α) (r : RbTree α)
  deriving Repr

variable {t : RbTree α} {a : α}

namespace RbTree

/-- The node with `x` on the side `d` and `y` on the other one. -/
def mk (d : Dir) (c : Color) (x : RbTree α) (a : α) (y : RbTree α) : RbTree α :=
  match d with
  | .left => node c x a y
  | .right => node c y a x

def root? : RbTree α → Option α
  | nil => none
  | node _ _ a _ => some a

def color : RbTree α → Color
  | nil => .black
  | node c _ _ _ => c

def paint (c : Color) : RbTree α → RbTree α
  | nil => nil
  | node _ l a r => node c l a r

@[simp] def toList : RbTree α → List α
  | nil => []
  | node _ l a r => l.toList ++ a :: r.toList

@[simp] lemma mk_opp (d : Dir) (c : Color) (x : RbTree α) (a : α) (y : RbTree α) :
    mk d.opp c x a y = mk d c y a x := by
  cases d <;> rfl

variable {l r : RbTree α}

@[simp] lemma root?_nil : (nil : RbTree α).root? = none := rfl

@[simp] lemma root?_node : (node c l a r).root? = some a := rfl

@[simp] lemma root?_mk (d : Dir) (c : Color) (x : RbTree α) (a : α) (y : RbTree α) :
    (mk d c x a y).root? = some a := by
  cases d <;> rfl

@[simp] lemma color_nil : (nil : RbTree α).color = .black := rfl

@[simp] lemma color_node : (node c l a r).color = c := rfl

@[simp] lemma color_mk (d : Dir) (c : Color) (x : RbTree α) (a : α) (y : RbTree α) :
    (mk d c x a y).color = c := by
  cases d <;> rfl

variable {c' : Color}

@[simp] lemma paint_mk (x : RbTree α) (a : α) (y : RbTree α) :
    (mk d c x a y).paint c' = mk d c' x a y := by
  cases d <;> rfl

@[simp] lemma toList_paint (c : Color) (t : RbTree α) : (t.paint c).toList = t.toList := by
  cases t <;> rfl

@[simp] lemma root?_paint (t : RbTree α) : (t.paint c).root? = t.root? := by
  cases t <;> rfl

lemma paint_self : t.paint t.color = t := by
  cases t <;> rfl

lemma root?_eq_none : t.root? = none ↔ t = nil := by
  cases t <;> simp

/-- Every tree is empty or a node, seen from either side. -/
theorem eq_nil_or_mk (d : Dir) (t : RbTree α) :
    t = nil ∨ ∃ x a y, t = mk d t.color x a y := by
  cases t with
  | nil => exact .inl rfl
  | node c l a r =>
    cases d with
    | left => exact .inr ⟨l, a, r, rfl⟩
    | right => exact .inr ⟨r, a, l, rfl⟩

lemma eq_mk_of_red (d : Dir) (h : t.color = .red) : ∃ x a y, t = mk d .red x a y := by
  obtain rfl | ⟨x, a, y, ht⟩ := eq_nil_or_mk d t
  · cases h
  · exact ⟨x, a, y, h ▸ ht⟩

lemma mem_toList_of_root? (h : t.root? = some a) : a ∈ t.toList := by
  cases t with
  | nil => cases h
  | node c l b r =>
    cases h
    simp

lemma root?_ne_none_of_mem (h : a ∈ t.toList) : t.root? ≠ none := by
  cases t with
  | nil => cases h
  | node c l b r => simp

/-- A rotation does not change the order of the keys. -/
theorem toList_rotate (d : Dir) (c c' e e' : Color) (x y z : RbTree α) (a b : α) :
    (mk d c x a (mk d e y b z)).toList = (mk d e' (mk d c' x a y) b z).toList := by
  cases d <;> simp [mk]

lemma toList_mk_congr {x x' y y' : RbTree α} (hx : x.toList = x'.toList)
    (hy : y.toList = y'.toList) : (mk d c x a y).toList = (mk d c' x' a y').toList := by
  cases d <;> simp [mk, hx, hy]

end RbTree
open RbTree

/-- The node above a hole: the hole is on the side `dir` of `key`. -/
structure Frame (α : Type u) where
  dir : Dir
  color : Color
  key : α
  sib : RbTree α

/-- Frames from the hole to the root. -/
abbrev Ctx (α : Type u) := List (Frame α)

@[simp] def plug : Ctx α → RbTree α → RbTree α
  | [], t => t
  | f :: fs, t => plug fs (RbTree.mk f.dir f.color t f.key f.sib)

def parentOf : Ctx α → Option α
  | [] => none
  | f :: _ => some f.key

lemma plug_cons (f : Frame α) {fs : Ctx α} :
    plug (f :: fs) t = plug fs (RbTree.mk f.dir f.color t f.key f.sib) := rfl

lemma plug_append (fs gs : Ctx α) (t : RbTree α) : plug (fs ++ gs) t = plug gs (plug fs t) := by
  induction fs generalizing t with
  | nil => rfl
  | cons f fs ih => exact ih _

lemma toList_plug_congr (ctx : Ctx α) {t' : RbTree α} (h : t.toList = t'.toList) :
    (plug ctx t).toList = (plug ctx t').toList := by
  induction ctx generalizing t t' with
  | nil => exact h
  | cons f fs ih => exact ih (toList_mk_congr h rfl)

lemma root?_plug_congr (ctx : Ctx α) {t' : RbTree α} (h : t.root? = t'.root?) :
    (plug ctx t).root? = (plug ctx t').root? := by
  induction ctx generalizing t t' with
  | nil => exact h
  | cons f fs ih => exact ih (by simp)

/-- The keys of the context on either side of the hole. -/
theorem toList_plug (ctx : Ctx α) :
    ∃ xs ys, ∀ t : RbTree α, (plug ctx t).toList = xs ++ t.toList ++ ys := by
  induction ctx with
  | nil => exact ⟨[], [], fun t => by simp⟩
  | cons f fs ih =>
    obtain ⟨xs, ys, h⟩ := ih
    cases hd : f.dir with
    | left =>
      refine ⟨xs, f.key :: f.sib.toList ++ ys, fun t => ?_⟩
      rw [plug, h, hd]
      simp [RbTree.mk]
    | right =>
      refine ⟨xs ++ f.sib.toList ++ [f.key], ys, fun t => ?_⟩
      rw [plug, h, hd]
      simp [RbTree.mk]

/-- Every key stands at the root of the focus of some context. -/
theorem exists_plug_of_mem (h : a ∈ t.toList) : ∃ ctx c l r, t = plug ctx (.node c l a r) := by
  induction t with
  | nil => cases h
  | node c l b r ihl ihr =>
    simp only [toList, List.mem_append, List.mem_cons] at h
    obtain h | rfl | h := h
    · obtain ⟨ctx, c', l', r', rfl⟩ := ihl h
      exact ⟨ctx ++ [⟨.left, c, b, r⟩], c', l', r', by rw [plug_append]; rfl⟩
    · exact ⟨[], c, l, r, rfl⟩
    · obtain ⟨ctx, c', l', r', rfl⟩ := ihr h
      exact ⟨ctx ++ [⟨.right, c, b, l⟩], c', l', r', by rw [plug_append]; rfl⟩

/-- Black height, with no red node below a red one. -/
def Bal : RbTree α → Nat → Prop
  | .nil, n => n = 0
  | .node .red l _ r, n => l.color = .black ∧ r.color = .black ∧ Bal l n ∧ Bal r n
  | .node .black _ _ _, 0 => False
  | .node .black l _ r, n + 1 => Bal l n ∧ Bal r n

def RbInv (t : RbTree α) : Prop := t.color = .black ∧ ∃ n, Bal t n

def HeadBlack : Ctx α → Prop
  | [] => False
  | f :: _ => f.color = .black

/-- The context is balanced around a hole of black height `n`. -/
def CtxBal : Ctx α → Nat → Prop
  | [], _ => True
  | f :: fs, n => Bal f.sib n ∧
      match f.color with
      | .red => f.sib.color = .black ∧ HeadBlack fs ∧ CtxBal fs n
      | .black => CtxBal fs (n + 1)

variable {n : Nat}

@[simp] lemma bal_nil : Bal (.nil : RbTree α) n ↔ n = 0 := Iff.rfl

@[simp] lemma bal_mk_red {x y : RbTree α} :
    Bal (RbTree.mk d .red x a y) n ↔
      x.color = .black ∧ y.color = .black ∧ Bal x n ∧ Bal y n := by
  cases d with
  | left => exact Iff.rfl
  | right =>
    simp only [RbTree.mk, Bal]
    tauto

@[simp] lemma bal_mk_black {x y : RbTree α} :
    Bal (RbTree.mk d .black x a y) n ↔ ∃ m, n = m + 1 ∧ Bal x m ∧ Bal y m := by
  cases n with
  | zero => cases d <;> simp [RbTree.mk, Bal]
  | succ n =>
    cases d with
    | left => simp [RbTree.mk, Bal]
    | right => simp [RbTree.mk, Bal, and_comm]

variable {fs : Ctx α} {s : RbTree α}

@[simp] lemma ctxBal_cons_red {k : α} :
    CtxBal (⟨d, .red, k, s⟩ :: fs) n ↔
      Bal s n ∧ s.color = .black ∧ HeadBlack fs ∧ CtxBal fs n := Iff.rfl

@[simp] lemma ctxBal_cons_black {k : α} :
    CtxBal (⟨d, .black, k, s⟩ :: fs) n ↔ Bal s n ∧ CtxBal fs (n + 1) := Iff.rfl

/-- Above a red frame there is a black one. -/
theorem CtxBal.of_red {f : Frame α} (h : CtxBal (f :: fs) n) (hf : f.color ≠ .black) :
    ∃ g gs, fs = g :: gs ∧ g.color = .black ∧ Bal f.sib n ∧ f.sib.color = .black ∧
      Bal g.sib n ∧ CtxBal gs (n + 1) := by
  obtain ⟨d, c, k, s⟩ := f
  cases Color.eq_red_of_ne hf
  obtain ⟨hs, hsc, hhead, hfs⟩ := ctxBal_cons_red.mp h
  cases fs with
  | nil => exact hhead.elim
  | cons g gs =>
    obtain ⟨gd, gc, gk, gsib⟩ := g
    cases hhead
    exact ⟨_, gs, rfl, rfl, hs, hsc, ctxBal_cons_black.mp hfs⟩

lemma rbInv_plug (ctx : Ctx α) (t : RbTree α) :
    RbInv (plug ctx t) ↔
      ∃ n, Bal t n ∧ CtxBal ctx n ∧ (t.color = .black ∨ HeadBlack ctx) := by
  induction ctx generalizing t with
  | nil => simp [RbInv, CtxBal, HeadBlack, and_comm]
  | cons f fs ih =>
    obtain ⟨d, c, k, s⟩ := f
    rw [plug, ih]
    cases c with
    | red =>
      simp only [bal_mk_red, color_mk, ctxBal_cons_red, HeadBlack, reduceCtorEq, false_or,
        or_false]
      constructor
      · rintro ⟨n, ⟨ht, hs, hbt, hbs⟩, hfs, hhead⟩
        exact ⟨n, hbt, ⟨hbs, hs, hhead, hfs⟩, ht⟩
      · rintro ⟨n, hbt, ⟨hbs, hs, hhead, hfs⟩, ht⟩
        exact ⟨n, ⟨ht, hs, hbt, hbs⟩, hfs, hhead⟩
    | black =>
      simp only [bal_mk_black, color_mk, ctxBal_cons_black, HeadBlack, true_or, or_true,
        and_true]
      constructor
      · rintro ⟨n, ⟨m, rfl, hbt, hbs⟩, hfs⟩
        exact ⟨m, hbt, hbs, hfs⟩
      · rintro ⟨m, hbt, hbs, hfs⟩
        exact ⟨m + 1, ⟨m, rfl, hbt, hbs⟩, hfs⟩

/-- A red node turned black is one higher. -/
theorem Bal.paint_black (h : Bal t n) (hc : t.color = .red) : Bal (t.paint .black) (n + 1) := by
  obtain ⟨x, a, y, rfl⟩ := eq_mk_of_red .left hc
  obtain ⟨-, -, hx, hy⟩ := bal_mk_red.mp h
  rw [paint_mk]
  exact bal_mk_black.mpr ⟨n, rfl, hx, hy⟩

end RbLib
