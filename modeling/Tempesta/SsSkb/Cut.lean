import Tempesta.Lib.Iterate
import Tempesta.SsSkb.Delete

/-!
Data between two pointers that is cut out of a list of buffers. The parts of the buffers are
visited one after another from the first pointer on, until the second one is in a part.
-/

namespace Tempesta.SsSkb

open List

/-- The part with the number `frag_num`, which is `-1` for the linear part -/
def SkBuff.part (s : SkBuff) : Option Nat → Frag
  | none => s.linear
  | some i => s.frags.getD i hole

def SkBuff.partSize (s : SkBuff) : Option Nat → Nat
  | none => s.headlen
  | some i => (s.frags.getD i hole).size

/-- `frag_num + 1` -/
def nextNum : Option Nat → Nat
  | none => 0
  | some i => i + 1

def splitDel (env : SkbEnv) (skb : SkBuff) (next : List SkBuff) (fragNum : Option Nat)
    (off len : Nat) : Option (SkBuff × List SkBuff) :=
  match fragNum with
  | none => splitLinearDel env skb next off len
  | some i => splitPgfragDel env skb next i off len

/-- The variables of the loop; `done` are the buffers that were left. -/
structure CutSt where
  done : List SkBuff
  skb : SkBuff
  next : List SkBuff
  fragNum : Option Nat
  curr : Nat

/-- One turn of the loop of `ss_skb_cut_extra_data` -/
def cutStep (env : SkbEnv) (stop : Nat) (st : CutSt) : CutSt ⊕ Option (List SkBuff) :=
  let addr := (st.skb.part st.fragNum).addr
  let size := st.skb.partSize st.fragNum
  let offset := st.curr - addr
  if st.curr < addr ∨ size ≤ offset then .inr none
  else if addr ≤ stop ∧ stop ≤ addr + size then
    if stop < st.curr then .inr none
    else if st.curr = stop then .inr (some (st.done ++ st.skb :: st.next))
    else
      .inr ((splitDel env st.skb st.next st.fragNum offset (stop - st.curr)).map
        fun (skb, next) => st.done ++ skb :: next)
  else
    match splitDel env st.skb st.next st.fragNum offset (size - offset) with
    | none => .inr none
    | some (skb, next) =>
      let num := nextNum st.fragNum
      if num < skb.frags.length then
        .inl ⟨st.done, skb, next, some num, (skb.frags.getD num hole).addr⟩
      else
        match next with
        | [] => .inr none
        | nskb :: rest => .inl ⟨st.done ++ [skb], nskb, rest, none, nskb.linear.addr⟩

/-- `ss_skb_cut_extra_data`, for the buffers from `skb` on. The loop has a turn for each part
at most. -/
def ssSkbCutExtraData (env : SkbEnv) (skb : SkBuff) (next : List SkBuff) (fragNum : Option Nat)
    (curr stop : Nat) : Option (List SkBuff) :=
  (IterLib.iterate (cutStep env stop)
    (((skb :: next).map fun s => s.frags.length + 1).sum) ⟨[], skb, next, fragNum, curr⟩).join

/-- A part of a list of buffers; the linear ones are not paged. -/
structure Part where
  paged : Bool
  frag : Frag
  deriving DecidableEq, Repr

def Part.cells (p : Part) : List (Nat × UInt8) := p.frag.cells

def SkBuff.parts (s : SkBuff) : List Part := ⟨false, s.linear⟩ :: s.frags.map (Part.mk true)

def parts (skbs : List SkBuff) : List Part := skbs.flatMap SkBuff.parts

def Frag.Meets (f : Frag) (p : Nat) : Prop := f.addr ≤ p ∧ p ≤ f.addr + f.size

instance (f : Frag) (p : Nat) : Decidable (f.Meets p) := instDecidableAnd

variable {s : SkBuff} {next skbs : List SkBuff} {past : Bool}

lemma flatMap_parts : s.parts.flatMap Part.cells = s.cells := by
  rw [SkBuff.parts, flatMap_cons, flatMap_map, SkBuff.cells]
  rfl

lemma parts_cons : parts (s :: next) = s.parts ++ parts next :=
  flatMap_cons

lemma cells_parts : (parts skbs).flatMap Part.cells = cells skbs := by
  induction skbs with
  | nil => rfl
  | cons s next ih => rw [parts_cons, flatMap_append, flatMap_parts, ih, cells_cons]

lemma length_parts (s : SkBuff) : s.parts.length = s.frags.length + 1 := by
  rw [SkBuff.parts, length_cons, length_map]

/-- What is left of the parts from the first pointer on. After a fragment that went as a whole
(`past`) the loop passes over the next one of the buffer. -/
def leave (stop : Nat) : Bool → Nat → List Part → Option (List (Nat × UInt8))
  | _, _, [] => none
  | past, off, p :: rest =>
    if past ∧ p.paged then (leave stop false 0 rest).map (p.cells ++ ·)
    else if p.frag.size ≤ off then none
    else if p.frag.Meets stop then
      if stop < p.frag.addr + off then none
      else some (p.cells.take off ++ p.cells.drop (stop - p.frag.addr) ++ rest.flatMap Part.cells)
    else (leave stop (p.paged && off == 0) 0 rest).map (p.cells.take off ++ ·)

/-- The layout for which the data is cut out as it should be: the `want` bytes from `off` on, up
to the pointer. Every part on the way has data from there on. The pointer is not met before. No
fragment goes as a whole before another one with data in the same buffer. -/
def Clear (stop : Nat) : Bool → Nat → Nat → List Part → Prop
  | _, _, _, [] => False
  | past, want, off, p :: rest =>
    if past ∧ p.paged then p.frag.size = 0 ∧ Clear stop false want 0 rest
    else off < p.frag.size ∧
      if p.frag.Meets stop then p.frag.addr + off + want = stop
      else p.frag.size ≤ off + want ∧
        Clear stop (p.paged && off == 0) (off + want - p.frag.size) 0 rest

variable {stop pos m want i k len j o : Nat} {ps rest : List Part} {l : List (Nat × UInt8)}
  {p : Part} {n : Option Nat} {s' : SkBuff} {next' : List SkBuff} {env : SkbEnv} {mem : Nat × Nat}
  {r : Option (List SkBuff)}

section cut
lemma Part.length_cells (p : Part) : p.cells.length = p.frag.size := p.frag.length_cells

lemma leave_nil (off : Nat) : leave stop past off [] = none := by
  cases past <;> rfl

variable {off : Nat}

lemma leave_length (h : leave stop past off ps = some l) :
    l.length ≤ (ps.flatMap Part.cells).length := by
  induction ps generalizing past off l with
  | nil =>
    rw [leave_nil] at h
    cases h
  | cons p rest ih =>
    have hp := p.length_cells
    rw [flatMap_cons, length_append]
    rw [leave] at h
    split_ifs at h with hskip hend hmeets hpast
    · obtain ⟨l', hl', rfl⟩ := Option.map_eq_some_iff.mp h
      have hle := ih hl'
      rw [length_append]
      omega
    · obtain rfl := Option.some.inj h
      rw [length_append, length_append, length_take, length_drop]
      omega
    · obtain ⟨l', hl', rfl⟩ := Option.map_eq_some_iff.mp h
      have hle := ih hl'
      rw [length_append, length_take]
      omega

lemma leave_all (h : leave stop false 0 ps = some (ps.flatMap Part.cells)) :
    ∃ p rest, ps = p :: rest ∧ 0 < p.frag.size ∧ p.frag.addr = stop := by
  cases ps with
  | nil => cases h
  | cons p rest =>
    have hp := p.length_cells
    rw [leave, if_neg (by simp), flatMap_cons] at h
    split_ifs at h with hend hmeets hpast
    · have hlen := congrArg List.length (Option.some.inj h)
      rw [length_append, length_append, length_append, length_take,
        length_drop] at hlen
      obtain ⟨hle, hge⟩ := hmeets
      exact ⟨p, rest, rfl, by omega, by omega⟩
    · obtain ⟨l', hl', heq⟩ := Option.map_eq_some_iff.mp h
      have hle := leave_length hl'
      have hlen := congrArg List.length heq
      rw [length_append, length_append, length_take] at hlen
      omega

/-- The pointer is at an offset in one of the parts, `pos` bytes from their start; it is not
before `off` in the first of them. -/
def Points (stop off pos : Nat) (ps : List Part) : Prop :=
  ∃ a q b o, ps = a ++ q :: b ∧ o ≤ q.frag.size ∧ stop = q.frag.addr + o ∧
    pos = (a.flatMap Part.cells).length + o ∧ (a = [] → off ≤ o)

lemma Points.le_length (h : Points stop off pos ps) : pos ≤ (ps.flatMap Part.cells).length := by
  obtain ⟨a, q, b, o, rfl, ho, -, rfl, -⟩ := h
  have hq := q.length_cells
  rw [flatMap_append, flatMap_cons, length_append, length_append]
  omega

lemma Points.tail (h : Points stop off pos (p :: rest)) :
    (p.frag.Meets stop ∧ stop = p.frag.addr + pos ∧ pos ≤ p.frag.size ∧ off ≤ pos) ∨
      p.frag.size ≤ pos ∧ Points stop 0 (pos - p.frag.size) rest := by
  obtain ⟨a, q, b, o, heq, ho, hstop, hpos, hoff⟩ := h
  have hp := p.length_cells
  cases a with
  | nil =>
    obtain ⟨rfl, rfl⟩ := List.cons.inj heq
    rw [flatMap_nil, length_nil, Nat.zero_add] at hpos
    subst hpos
    exact .inl ⟨⟨by omega, by omega⟩, hstop, ho, hoff rfl⟩
  | cons p' a =>
    obtain ⟨rfl, rfl⟩ := List.cons.inj heq
    rw [flatMap_cons, length_append] at hpos
    exact .inr ⟨by omega, a, q, b, o, rfl, ho, hstop, by omega, fun _ => Nat.zero_le _⟩

lemma take_drop_append {α : Type*} {a b : List α} {n : Nat} (hm : m ≤ a.length)
    (hn : a.length ≤ n) :
    (a ++ b).take m ++ (a ++ b).drop n = a.take m ++ (b.take 0 ++ b.drop (n - a.length)) := by
  rw [take_append_of_le_length hm, drop_append, drop_of_length_le hn,
    nil_append, take_zero, nil_append]

lemma leave_of_clear (h : Clear stop past want off ps) (hzero : past = true → off = 0) :
    leave stop past off ps = some ((ps.flatMap Part.cells).take off ++
      (ps.flatMap Part.cells).drop (off + want)) := by
  induction ps generalizing past want off with
  | nil => exact h.elim
  | cons p rest ih =>
    have hp := p.length_cells
    rw [Clear] at h
    rw [leave, flatMap_cons]
    by_cases hskip : past ∧ p.paged
    · rw [if_pos hskip] at h ⊢
      obtain ⟨hsize, hclear⟩ := h
      have hnil : p.cells = [] := length_eq_zero_iff.mp (hp.trans hsize)
      rw [ih hclear (fun h => nomatch h), hzero hskip.1, hnil]
      rfl
    · rw [if_neg hskip] at h ⊢
      obtain ⟨hoff, h⟩ := h
      rw [if_neg (Nat.not_le.mpr hoff)]
      by_cases hmeets : p.frag.Meets stop
      · rw [if_pos hmeets] at h ⊢
        obtain ⟨-, hend⟩ := hmeets
        rw [if_neg (by omega), take_append_of_le_length (by omega),
          drop_append_of_le_length (by omega), ← append_assoc]
        congr 4
        omega
      · rw [if_neg hmeets] at h ⊢
        obtain ⟨hle, hclear⟩ := h
        rw [ih hclear (fun _ => rfl), take_drop_append (by omega) (by omega), hp, Nat.zero_add]
        rfl

def Apart (ps : List Part) : Prop := ((ps.flatMap Part.cells).map Prod.fst).Nodup

instance (ps : List Part) : Decidable (Apart ps) := inferInstanceAs (Decidable (List.Nodup _))

lemma clear_of_leave_all (h : leave stop false 0 ps = some (ps.flatMap Part.cells)) :
    Clear stop false 0 0 ps := by
  obtain ⟨p, rest, rfl, hpos, haddr⟩ := leave_all h
  rw [Clear, if_neg (by simp), if_pos ⟨Nat.le_of_eq haddr, by omega⟩]
  exact ⟨hpos, haddr⟩

lemma Part.cells_eq_cons (h : 0 < p.frag.size) :
    ∃ b l, p.cells = (p.frag.addr, b) :: l := by
  obtain ⟨paged, addr, data⟩ := p
  cases data with
  | nil => cases h
  | cons b data => exact ⟨b, cellsAt (addr + 1) data, rfl⟩

/-- A fragment that the loop passes over is still there, so the data is not what it should be. -/
theorem skipped_stays (hapart : Apart (p :: rest)) (hpoints : Points stop 0 (0 + want) (p :: rest))
    (hl : leave stop false 0 rest = some l) (hsize : 0 < p.frag.size) :
    p.cells ++ l ≠ (p.cells ++ rest.flatMap Part.cells).drop want := by
  intro heq
  obtain ⟨b, tail, hcells⟩ := Part.cells_eq_cons hsize
  rw [Apart, flatMap_cons, hcells, cons_append, map_cons, nodup_cons] at hapart
  obtain ⟨hfirst, -⟩ := hapart
  rw [map_append, mem_append] at hfirst
  rw [Nat.zero_add] at hpoints
  cases want with
  | zero =>
    obtain ⟨-, hstop, -⟩ | ⟨hle, -⟩ := hpoints.tail
    · rw [drop_zero] at heq
      rw [append_cancel_left heq] at hl
      obtain ⟨q, rest', rfl, hpos, haddr⟩ := leave_all hl
      obtain ⟨c, tail', hcells'⟩ := Part.cells_eq_cons hpos
      refine hfirst (.inr ?_)
      rw [flatMap_cons, hcells', cons_append, map_cons, haddr, hstop]
      exact mem_cons_self
    · omega
  | succ want =>
    rw [hcells, cons_append, cons_append, drop_succ_cons] at heq
    have hmem : (p.frag.addr, b) ∈ tail ++ rest.flatMap Part.cells := by
      refine mem_of_mem_drop (i := want) ?_
      rw [← heq]
      exact mem_cons_self
    rw [mem_append] at hmem
    exact hfirst (hmem.imp (mem_map_of_mem (f := Prod.fst)) (mem_map_of_mem (f := Prod.fst)))

lemma clear_of_leave (hapart : Apart ps) (hpoints : Points stop off (off + want) ps)
    (hzero : past = true → off = 0)
    (h : leave stop past off ps =
      some ((ps.flatMap Part.cells).take off ++ (ps.flatMap Part.cells).drop (off + want))) :
    Clear stop past want off ps := by
  induction ps generalizing past want off with
  | nil =>
    rw [leave_nil] at h
    cases h
  | cons p rest ih =>
    have hp := p.length_cells
    have hrest : Apart rest := by
      rw [Apart, flatMap_cons, map_append] at hapart
      exact (nodup_append.mp hapart).2.1
    rw [Clear]
    rw [leave, flatMap_cons] at h
    by_cases hskip : past ∧ p.paged
    · rw [if_pos hskip] at h ⊢
      obtain rfl := hzero hskip.1
      obtain ⟨l, hl, heq⟩ := Option.map_eq_some_iff.mp h
      rw [take_zero, nil_append, Nat.zero_add] at heq
      by_cases hsize : p.frag.size = 0
      · refine ⟨hsize, ?_⟩
        have hnil : p.cells = [] := length_eq_zero_iff.mp (hp.trans hsize)
        rw [hnil, nil_append, nil_append] at heq
        subst heq
        obtain ⟨-, -, hwant, -⟩ | ⟨-, htail⟩ := hpoints.tail
        · obtain rfl : want = 0 := by omega
          exact clear_of_leave_all hl
        · refine ih hrest ?_ (fun h => nomatch h) ?_
          · rwa [hsize, Nat.sub_zero] at htail
          · rw [take_zero, nil_append, Nat.zero_add, hl]
      · exact absurd heq (skipped_stays hapart hpoints hl (Nat.pos_of_ne_zero hsize))
    · rw [if_neg hskip] at h ⊢
      by_cases hend : p.frag.size ≤ off
      · rw [if_pos hend] at h
        cases h
      rw [if_neg hend] at h
      refine ⟨Nat.lt_of_not_le hend, ?_⟩
      by_cases hmeets : p.frag.Meets stop
      · rw [if_pos hmeets] at h ⊢
        have hle := hpoints.le_length
        obtain ⟨hfrom, hto⟩ := hmeets
        rw [flatMap_cons, length_append] at hle
        by_cases hpast : stop < p.frag.addr + off
        · rw [if_pos hpast] at h
          cases h
        rw [if_neg hpast] at h
        have hlen := congrArg List.length (Option.some.inj h)
        rw [length_append, length_append, length_append, length_take,
          length_take, length_drop, length_drop, length_append] at hlen
        omega
      · rw [if_neg hmeets] at h ⊢
        obtain ⟨hmeets', -⟩ | ⟨hle, htail⟩ := hpoints.tail
        · exact absurd hmeets' hmeets
        refine ⟨hle, ih hrest (by rwa [Nat.zero_add]) (fun _ => rfl) ?_⟩
        obtain ⟨l, hl, heq⟩ := Option.map_eq_some_iff.mp h
        rw [take_drop_append (by omega) (by omega), hp] at heq
        rw [hl, append_cancel_left heq, Nat.zero_add]

end cut

lemma drop_parts (h : nextNum n ≤ s.frags.length) :
    s.parts.drop (nextNum n) = ⟨n.isSome, s.part n⟩ :: s.parts.drop (nextNum n + 1) := by
  cases n with
  | none => rfl
  | some i =>
    have hi : i < s.frags.length := h
    have hget : s.frags.getD i hole = s.frags[i] := by
      rw [getD_eq_getElem?_getD, getElem?_eq_getElem hi, Option.getD_some]
    rw [SkBuff.part, hget, nextNum, SkBuff.parts, drop_succ_cons, drop_succ_cons,
      ← map_drop, ← map_drop, drop_eq_getElem_cons hi, map_cons]
    rfl

lemma part_getElem? (h : nextNum (some i) ≤ s.frags.length) :
    s.frags[i]? = some (s.part (some i)) := by
  have hi : i < s.frags.length := h
  rw [SkBuff.part, getD_eq_getElem?_getD, getElem?_eq_getElem hi, Option.getD_some]

lemma Sound.partSize_eq (h : Sound s) (n : Option Nat) : s.partSize n = (s.part n).size := by
  cases n with
  | none => exact h.headlen_eq
  | some i => rfl

lemma paged_drop (h : p ∈ s.parts.drop (k + 1)) : p.paged = true := by
  rw [SkBuff.parts, drop_succ_cons] at h
  obtain ⟨f, -, rfl⟩ := mem_map.mp (mem_of_mem_drop h)
  rfl

lemma head_parts (next : List SkBuff) : ∀ p ∈ (parts next).head?, p.paged = false := by
  cases next with
  | nil => nofun
  | cons t rest =>
    intro p hp
    obtain rfl := Option.some.inj hp
    rfl

/-- The data of a part from an offset to its end is deleted: the part is shorter, or it is not
there any more. -/
theorem splitDel_rest (env : SkbEnv) {off : Nat} (hs : Sound s) (hnext : ∀ u ∈ next, Sound u)
    (hn : nextNum n ≤ s.frags.length) (hoff : off < (s.part n).size) :
    ∃ s', splitDel env s next n off ((s.part n).size - off) = some (s', next) ∧ Sound s' ∧
      s'.parts = s.parts.take (nextNum n) ++
        ((if n.isSome && off == 0 then [] else [⟨n.isSome, (s.part n).upto off⟩]) ++
          s.parts.drop (nextNum n + 1)) := by
  cases n with
  | none =>
    have hdel : splitLinearDel env s next off (s.linear.size - off) = some ({ s with
        linear := s.linear.upto off, len := s.len - (s.linear.size - off),
        room := s.room + (s.linear.size - off) }, next) := by
      rw [splitLinearDel]
      exact if_pos rfl
    obtain ⟨row, hholds, -⟩ := splitLinearDel_holds hs hnext
      (Nat.le_of_eq (Nat.add_sub_cancel' (Nat.le_of_lt hoff))) hdel
    exact ⟨_, hdel, hholds.sound, rfl⟩
  | some i =>
    have hf := part_getElem? hn
    have hdel := splitPgfragDel_rest env next hf hoff
    obtain ⟨row, hholds, -⟩ := splitPgfragDel_holds hs hnext hf hdel
    refine ⟨_, hdel, hholds.sound, ?_⟩
    by_cases hzero : off = 0
    · subst hzero
      show Part.mk false s.linear :: (s.frags.take i ++ s.frags.drop (i + 1)).map _ = _
      rw [map_append, map_take, map_drop]
      rfl
    · rw [if_neg hzero, if_neg (by simp [hzero])]
      show Part.mk false s.linear :: (s.frags.set i _).map _ = _
      rw [set_eq_middle hn, map_append, map_cons, map_take, map_drop]
      rfl

variable {st : CutSt}

namespace CutSt

structure Wf (st : CutSt) : Prop where
  skb : Sound st.skb
  next : ∀ u ∈ st.next, Sound u
  num : nextNum st.fragNum ≤ st.skb.frags.length
  curr : (st.skb.part st.fragNum).addr ≤ st.curr

def offset (st : CutSt) : Nat := st.curr - (st.skb.part st.fragNum).addr

def ahead (st : CutSt) : List Part := (parts (st.skb :: st.next)).drop (nextNum st.fragNum)

def kept (st : CutSt) : List (Nat × UInt8) :=
  cells st.done ++ ((parts (st.skb :: st.next)).take (nextNum st.fragNum)).flatMap Part.cells

def turns (st : CutSt) : Nat :=
  (st.next.map fun s => s.frags.length + 1).sum + (st.skb.frags.length - nextNum st.fragNum)

lemma Wf.ahead_eq (h : st.Wf) : st.ahead =
    ⟨st.fragNum.isSome, st.skb.part st.fragNum⟩ ::
      (st.skb.parts.drop (nextNum st.fragNum + 1) ++ parts st.next) := by
  have hlen := length_parts st.skb
  have hnum := h.num
  rw [ahead, parts_cons, drop_append_of_le_length (by omega), drop_parts hnum, cons_append]

lemma Wf.kept_eq (h : st.Wf) : st.kept =
    cells st.done ++ (st.skb.parts.take (nextNum st.fragNum)).flatMap Part.cells := by
  have hlen := length_parts st.skb
  have hnum := h.num
  rw [kept, parts_cons, take_append_of_le_length (by omega)]

end CutSt

section step

variable {here behind : List Part}

lemma leave_over (stop : Nat) (hhere : ∀ p ∈ here, p.paged = true)
    (hbehind : ∀ p ∈ behind.head?, p.paged = false) :
    leave stop true 0 (here ++ behind) = (leave stop false 0 (here.drop 1 ++ behind)).map
      ((here.take 1).flatMap Part.cells ++ ·) := by
  cases here with
  | nil =>
    cases behind with
    | nil => rfl
    | cons p rest =>
      have hp : p.paged = false := hbehind p rfl
      simp only [nil_append, drop_nil, take_nil, flatMap_nil]
      rw [leave, leave, if_neg (show ¬ (true = true ∧ p.paged = true) by simp [hp]),
        if_neg (show ¬ (false = true ∧ p.paged = true) by simp), Option.map_id']
  | cons p here =>
    have hp : p.paged = true := hhere p mem_cons_self
    rw [cons_append, leave, if_pos ⟨rfl, hp⟩]
    simp only [drop_succ_cons, drop_zero, take_succ_cons, take_zero,
      flatMap_singleton]

variable {off : Nat}

lemma leave_end (h : p.frag.size ≤ off) :
    leave stop false off (p :: rest) = none := by
  rw [leave, if_neg (by simp), if_pos h]

lemma leave_meets (hoff : off < p.frag.size) (hmeets : p.frag.Meets stop) :
    leave stop false off (p :: rest) =
      if stop < p.frag.addr + off then none
      else some (p.cells.take off ++ p.cells.drop (stop - p.frag.addr) ++
        rest.flatMap Part.cells) := by
  rw [leave, if_neg (by simp), if_neg (Nat.not_le.mpr hoff), if_pos hmeets]

lemma leave_pass (hoff : off < p.frag.size) (hmeets : ¬ p.frag.Meets stop) :
    leave stop false off (p :: rest) =
      (leave stop (p.paged && off == 0) 0 rest).map (p.cells.take off ++ ·) := by
  rw [leave, if_neg (by simp), if_neg (Nat.not_le.mpr hoff), if_neg hmeets]

variable (hwf : st.Wf)
include hwf

lemma cutStep_end (h : (st.skb.part st.fragNum).size ≤ st.offset) :
    cutStep env stop st = .inr none := by
  rw [cutStep, hwf.skb.partSize_eq]
  exact if_pos (.inr h)

lemma cutStep_meets (h : st.offset < (st.skb.part st.fragNum).size)
    (hmeets : (st.skb.part st.fragNum).Meets stop) :
    cutStep env stop st = .inr (if stop < st.curr then none
      else if st.curr = stop then some (st.done ++ st.skb :: st.next)
      else (splitDel env st.skb st.next st.fragNum st.offset (stop - st.curr)).map
        fun (skb, next) => st.done ++ skb :: next) := by
  have hin : ¬ (st.curr < (st.skb.part st.fragNum).addr ∨
      (st.skb.part st.fragNum).size ≤ st.offset) :=
    not_or.mpr ⟨Nat.not_lt.mpr hwf.curr, Nat.not_le.mpr h⟩
  rw [cutStep, hwf.skb.partSize_eq]
  refine (if_neg hin).trans ((if_pos hmeets).trans ?_)
  split_ifs <;> rfl

lemma cutStep_pass (env : SkbEnv) (h : st.offset < (st.skb.part st.fragNum).size)
    (hmeets : ¬ (st.skb.part st.fragNum).Meets stop) :
    ∃ s', Sound s' ∧ s'.parts = st.skb.parts.take (nextNum st.fragNum) ++
        ((if st.fragNum.isSome && st.offset == 0 then []
          else [⟨st.fragNum.isSome, (st.skb.part st.fragNum).upto st.offset⟩]) ++
          st.skb.parts.drop (nextNum st.fragNum + 1)) ∧
      cutStep env stop st =
        if nextNum st.fragNum < s'.frags.length then
          .inl ⟨st.done, s', st.next, some (nextNum st.fragNum),
            (s'.frags.getD (nextNum st.fragNum) hole).addr⟩
        else
          match st.next with
          | [] => .inr none
          | nskb :: rest => .inl ⟨st.done ++ [s'], nskb, rest, none, nskb.linear.addr⟩ := by
  have hin : ¬ (st.curr < (st.skb.part st.fragNum).addr ∨
      (st.skb.part st.fragNum).size ≤ st.offset) :=
    not_or.mpr ⟨Nat.not_lt.mpr hwf.curr, Nat.not_le.mpr h⟩
  obtain ⟨s', hdel, hs', hparts⟩ := splitDel_rest env hwf.skb hwf.next hwf.num h
  refine ⟨s', hs', hparts, ?_⟩
  rw [cutStep, hwf.skb.partSize_eq]
  refine (if_neg hin).trans ((if_neg hmeets).trans ?_)
  rw [CutSt.offset] at hdel
  rw [hdel]

/-- The same with the data that the turn leaves behind, which is in front of what the rest of the
loop leaves -/
theorem cutStep_leave (env : SkbEnv) (h : st.offset < (st.skb.part st.fragNum).size)
    (hmeets : ¬ (st.skb.part st.fragNum).Meets stop) :
    ∃ s' x, Sound s' ∧ s'.frags.length ≤ st.skb.frags.length ∧
      (s'.parts.take (nextNum st.fragNum + 1)).flatMap Part.cells =
        (st.skb.parts.take (nextNum st.fragNum)).flatMap Part.cells ++ x ∧
      leave stop false st.offset st.ahead =
        (leave stop false 0 (s'.parts.drop (nextNum st.fragNum + 1) ++ parts st.next)).map
          (x ++ ·) ∧
      cutStep env stop st =
        if nextNum st.fragNum < s'.frags.length then
          .inl ⟨st.done, s', st.next, some (nextNum st.fragNum),
            (s'.frags.getD (nextNum st.fragNum) hole).addr⟩
        else
          match st.next with
          | [] => .inr none
          | nskb :: rest => .inl ⟨st.done ++ [s'], nskb, rest, none, nskb.linear.addr⟩ := by
  obtain ⟨s', hs', hparts, hstep⟩ := cutStep_pass hwf env h hmeets
  have hnum := hwf.num
  have hlen := length_parts st.skb
  have hlen' := length_parts s'
  have htake : (st.skb.parts.take (nextNum st.fragNum)).length = nextNum st.fragNum := by
    rw [length_take, Nat.min_eq_left (by omega)]
  obtain ⟨k, hk⟩ : ∃ k, k = nextNum st.fragNum := ⟨_, rfl⟩
  rw [← hk] at hparts hnum htake ⊢
  have hleave : leave stop false st.offset st.ahead =
      (leave stop (st.fragNum.isSome && st.offset == 0) 0
        (st.skb.parts.drop (k + 1) ++ parts st.next)).map
          ((st.skb.part st.fragNum).cells.take st.offset ++ ·) := by
    rw [hwf.ahead_eq, ← hk]
    exact leave_pass h hmeets
  cases hwhole : st.fragNum.isSome && st.offset == 0 with
  | true =>
    rw [hwhole, if_pos rfl, nil_append] at hparts
    have hzero : st.offset = 0 := eq_of_beq (Bool.and_eq_true_iff.mp hwhole).2
    have hover := leave_over stop (fun p hp => paged_drop (s := st.skb) (k := k) hp)
      (head_parts st.next)
    refine ⟨s', ((st.skb.parts.drop (k + 1)).take 1).flatMap Part.cells, hs', ?_, ?_, ?_, ?_⟩
    · have hsize := congrArg List.length hparts
      rw [length_append, htake, length_drop] at hsize
      omega
    · rw [hparts, take_append, htake, take_of_length_le (by omega),
        Nat.add_sub_cancel_left, flatMap_append]
    · have hdrop : s'.parts.drop (k + 1) = (st.skb.parts.drop (k + 1)).drop 1 := by
        have hnone : (st.skb.parts.take k).drop (k + 1) = [] :=
          drop_of_length_le (by omega)
        rw [hparts, drop_append, htake, hnone, nil_append, Nat.add_sub_cancel_left]
      rw [hleave, hwhole, hover, hdrop, hzero, take_zero, Option.map_map]
      rfl
    · rw [hstep, ← hk]
  | false =>
    rw [hwhole, if_neg Bool.false_ne_true, singleton_append, append_cons] at hparts
    have htake' : (st.skb.parts.take k ++
        [Part.mk st.fragNum.isSome ((st.skb.part st.fragNum).upto st.offset)]).length = k + 1 := by
      rw [length_append, htake]
      rfl
    refine ⟨s', (st.skb.part st.fragNum).cells.take st.offset, hs', ?_, ?_, ?_, ?_⟩
    · have hsize := congrArg List.length hparts
      rw [length_append, htake', length_drop] at hsize
      omega
    · rw [hparts, take_left' htake', flatMap_append, flatMap_singleton]
      exact congrArg _ (Frag.cells_upto _ (Nat.le_of_lt h))
    · rw [hleave, hwhole, hparts, drop_left' htake']
    · rw [hstep, ← hk]

variable {st' : CutSt}

lemma cutStep_next (h : cutStep env stop st = .inl st') :
    (st'.Wf ∧ st'.turns < st.turns) ∧ ∃ x, st'.kept = st.kept ++ x ∧
      leave stop false st.offset st.ahead =
        (leave stop false st'.offset st'.ahead).map (x ++ ·) := by
  by_cases hend : (st.skb.part st.fragNum).size ≤ st.offset
  · rw [cutStep_end hwf hend] at h
    cases h
  by_cases hmeets : (st.skb.part st.fragNum).Meets stop
  · rw [cutStep_meets hwf (Nat.lt_of_not_le hend) hmeets] at h
    cases h
  obtain ⟨s', x, hs', hle, hkept, hleave, hstep⟩ :=
    cutStep_leave hwf env (Nat.lt_of_not_le hend) hmeets
  have hlen := length_parts s'
  rw [hstep] at h
  by_cases hmore : nextNum st.fragNum < s'.frags.length
  · rw [if_pos hmore] at h
    obtain rfl := Sum.inl.inj h
    have hwf' : CutSt.Wf ⟨st.done, s', st.next, some (nextNum st.fragNum),
        (s'.frags.getD (nextNum st.fragNum) hole).addr⟩ := ⟨hs', hwf.next, hmore, Nat.le_refl _⟩
    refine ⟨⟨hwf', ?_⟩, x, ?_, ?_⟩
    · refine Nat.add_lt_add_left ?_ _
      show s'.frags.length - (nextNum st.fragNum + 1) < st.skb.frags.length - nextNum st.fragNum
      omega
    · rw [hwf'.kept_eq, hwf.kept_eq, append_assoc]
      exact congrArg _ hkept
    · have hahead : CutSt.ahead ⟨st.done, s', st.next, some (nextNum st.fragNum),
          (s'.frags.getD (nextNum st.fragNum) hole).addr⟩ =
            s'.parts.drop (nextNum st.fragNum + 1) ++ parts st.next := by
        rw [CutSt.ahead, parts_cons]
        exact drop_append_of_le_length (show nextNum st.fragNum + 1 ≤ s'.parts.length by omega)
      have hoffset : CutSt.offset ⟨st.done, s', st.next, some (nextNum st.fragNum),
          (s'.frags.getD (nextNum st.fragNum) hole).addr⟩ = 0 := Nat.sub_self _
      rw [hleave, hahead, hoffset]
  · rw [if_neg hmore] at h
    have htake : s'.parts.take (nextNum st.fragNum + 1) = s'.parts :=
      take_of_length_le (by omega)
    have hdrop : s'.parts.drop (nextNum st.fragNum + 1) = [] :=
      drop_of_length_le (by omega)
    rw [htake] at hkept
    rw [hdrop, nil_append] at hleave
    cases hnext : st.next with
    | nil =>
      rw [hnext] at h
      cases h
    | cons nskb rest =>
      rw [hnext] at h hleave
      obtain rfl := Sum.inl.inj h
      have hsound : ∀ u ∈ nskb :: rest, Sound u := hnext ▸ hwf.next
      refine ⟨⟨⟨hsound nskb mem_cons_self,
        fun u hu => hsound u (mem_cons_of_mem _ hu), Nat.zero_le _, Nat.le_refl _⟩, ?_⟩,
        x, ?_, ?_⟩
      · rw [CutSt.turns, CutSt.turns, hnext, map_cons, sum_cons]
        show (rest.map fun s => s.frags.length + 1).sum + (nskb.frags.length - 0) < _
        omega
      · rw [hwf.kept_eq, append_assoc, ← hkept, flatMap_parts]
        show cells (st.done ++ [s']) ++ [] = _
        rw [append_nil, cells, flatMap_append, flatMap_singleton]
        rfl
      · have hoffset : CutSt.offset ⟨st.done ++ [s'], nskb, rest, none, nskb.linear.addr⟩ = 0 :=
          Nat.sub_self _
        rw [hleave, hoffset]
        rfl

end step

lemma splitDel_cells {off : Nat} (hs : Sound s) (hnext : ∀ u ∈ next, Sound u)
    (hn : nextNum n ≤ s.frags.length) (hlen : off + len ≤ (s.part n).size)
    (h : splitDel env s next n off len = some (s', next')) :
    cells (s' :: next') = (s.parts.take (nextNum n)).flatMap Part.cells ++
      ((s.part n).cells.take off ++ (s.part n).cells.drop (off + len) ++
        (s.parts.drop (nextNum n + 1) ++ parts next).flatMap Part.cells) := by
  have hrest : (s.parts.drop (nextNum n + 1) ++ parts next).flatMap Part.cells =
      (s.frags.drop (nextNum n)).flatMap Frag.cells ++ cells next := by
    rw [flatMap_append, cells_parts, SkBuff.parts, drop_succ_cons, ← map_drop,
      flatMap_map]
    rfl
  rw [hrest]
  cases n with
  | none =>
    obtain ⟨row, hholds, hrow⟩ := splitLinearDel_holds hs hnext hlen h
    rw [hholds.cells_eq, hrow, s.linear.cells_upto (Nat.le_trans (Nat.le_add_right _ _) hlen)]
    simp only [append_assoc]
    rfl
  | some i =>
    obtain ⟨row, hholds, hrow⟩ := splitPgfragDel_holds hs hnext (part_getElem? hn) h
    have htake : (s.parts.take (nextNum (some i))).flatMap Part.cells =
        s.linear.cells ++ (s.frags.take i).flatMap Frag.cells := by
      rw [nextNum, SkBuff.parts, take_succ_cons, flatMap_cons, ← map_take,
        flatMap_map]
      rfl
    rw [hholds.cells_eq, hrow, htake]
    simp only [append_assoc]
    rfl

lemma splitDel_some (hnskb : env.nskb = some mem) (next : List SkBuff) {off : Nat} (hs : Sound s)
    (hn : nextNum n ≤ s.frags.length) (hlen : off + len ≤ (s.part n).size) :
    ∃ r, splitDel env s next n off len = some r := by
  cases n with
  | none => exact splitLinearDel_some hnskb s next off len
  | some i => exact splitPgfragDel_some hnskb hs (part_getElem? hn) hlen

lemma CutSt.kept_append_ahead (st : CutSt) :
    st.kept ++ st.ahead.flatMap Part.cells = cells (st.done ++ st.skb :: st.next) := by
  rw [CutSt.kept, CutSt.ahead, append_assoc, ← flatMap_append, take_append_drop,
    cells_parts, cells, cells, cells, flatMap_append]

lemma cutStep_stop (hwf : st.Wf) (h : cutStep env stop st = .inr r) :
    (∀ l, r = some l → ∃ x, leave stop false st.offset st.ahead = some x ∧
      cells l = st.kept ++ x) ∧
    (env.nskb.isSome → (leave stop false st.offset st.ahead).isSome → r.isSome) := by
  have hcurr := hwf.curr
  have hoffset : st.curr = (st.skb.part st.fragNum).addr + st.offset :=
    (Nat.add_sub_cancel' hcurr).symm
  by_cases hend : (st.skb.part st.fragNum).size ≤ st.offset
  · rw [cutStep_end hwf hend] at h
    obtain rfl := Sum.inr.inj h
    refine ⟨nofun, fun _ hsome => ?_⟩
    rw [hwf.ahead_eq, leave_end hend] at hsome
    exact hsome
  have hlt := Nat.lt_of_not_le hend
  by_cases hmeets : (st.skb.part st.fragNum).Meets stop
  · rw [cutStep_meets hwf hlt hmeets] at h
    obtain rfl := Sum.inr.inj h
    rw [hwf.ahead_eq, leave_meets hlt hmeets, ← hoffset]
    by_cases hpast : stop < st.curr
    · rw [if_pos hpast, if_pos hpast]
      exact ⟨nofun, fun _ hsome => hsome⟩
    rw [if_neg hpast, if_neg hpast]
    obtain ⟨-, hto⟩ := hmeets
    by_cases hhere : st.curr = stop
    · rw [if_pos hhere]
      refine ⟨fun l hl => ⟨_, rfl, ?_⟩, fun _ _ => rfl⟩
      obtain rfl := Option.some.inj hl
      have hoff : stop - (st.skb.part st.fragNum).addr = st.offset := by omega
      rw [← st.kept_append_ahead, hwf.ahead_eq, flatMap_cons, hoff, take_append_drop]
    · rw [if_neg hhere]
      have hlen : st.offset + (stop - st.curr) = stop - (st.skb.part st.fragNum).addr := by omega
      constructor
      · intro l hl
        obtain ⟨⟨s', next'⟩, hdel, rfl⟩ := Option.map_eq_some_iff.mp hl
        have hcells := splitDel_cells hwf.skb hwf.next hwf.num (by omega) hdel
        refine ⟨_, rfl, ?_⟩
        rw [hlen] at hcells
        rw [hwf.kept_eq, cells, flatMap_append, append_assoc]
        exact congrArg _ hcells
      · intro hnskb _
        obtain ⟨mem, hmem⟩ := Option.isSome_iff_exists.mp hnskb
        obtain ⟨r, hr⟩ := splitDel_some hmem st.next hwf.skb hwf.num
          (show st.offset + (stop - st.curr) ≤ _ by omega)
        rw [hr]
        rfl
  · obtain ⟨s', x, -, -, -, hleave, hstep⟩ := cutStep_leave hwf env hlt hmeets
    rw [hstep] at h
    by_cases hmore : nextNum st.fragNum < s'.frags.length
    · rw [if_pos hmore] at h
      cases h
    rw [if_neg hmore] at h
    have hdrop : s'.parts.drop (nextNum st.fragNum + 1) = [] :=
      drop_of_length_le (by rw [length_parts]; omega)
    cases hnext : st.next with
    | nil =>
      rw [hnext] at h
      obtain rfl := Sum.inr.inj h
      refine ⟨nofun, fun _ hsome => ?_⟩
      rw [hleave, hdrop, hnext] at hsome
      exact hsome
    | cons nskb rest =>
      rw [hnext] at h
      cases h

lemma cut_leave (h : IterLib.Ends (cutStep env stop) st r) (hwf : st.Wf) :
    (∀ l, r = some l → ∃ x, leave stop false st.offset st.ahead = some x ∧
      cells l = st.kept ++ x) ∧
    (env.nskb.isSome → (leave stop false st.offset st.ahead).isSome → r.isSome) := by
  induction h with
  | stop hstep => exact cutStep_stop hwf hstep
  | next hstep _ ih =>
    obtain ⟨⟨hwf', -⟩, x, hkept, hleave⟩ := cutStep_next hwf hstep
    obtain ⟨hdata, hsome⟩ := ih hwf'
    constructor
    · intro l hl
      obtain ⟨y, hy, hcells⟩ := hdata l hl
      exact ⟨x ++ y, by rw [hleave, hy, Option.map_some],
        by rw [hcells, hkept, append_assoc]⟩
    · intro hnskb hsome'
      rw [hleave, Option.isSome_map] at hsome'
      exact hsome hnskb hsome'

section exact
variable {fragNum : Option Nat} {off : Nat}

/-- The number of bytes before an offset in the part `i` -/
def posOf (ps : List Part) (i off : Nat) : Nat := ((ps.take i).flatMap Part.cells).length + off

lemma ssSkbCutExtraData_leave (env : SkbEnv) (off stop : Nat) (hs : ∀ u ∈ s :: next, Sound u)
    (hnum : nextNum fragNum ≤ s.frags.length) :
    (∀ l, ssSkbCutExtraData env s next fragNum ((s.part fragNum).addr + off) stop = some l →
      ∃ x, leave stop false off ((parts (s :: next)).drop (nextNum fragNum)) = some x ∧
        cells l = ((parts (s :: next)).take (nextNum fragNum)).flatMap Part.cells ++ x) ∧
    (env.nskb.isSome →
      (leave stop false off ((parts (s :: next)).drop (nextNum fragNum))).isSome →
      (ssSkbCutExtraData env s next fragNum ((s.part fragNum).addr + off) stop).isSome) := by
  have hwf : CutSt.Wf ⟨[], s, next, fragNum, (s.part fragNum).addr + off⟩ :=
    ⟨hs s mem_cons_self, fun u hu => hs u (mem_cons_of_mem _ hu), hnum,
      Nat.le_add_right _ _⟩
  have hturns : CutSt.turns ⟨[], s, next, fragNum, (s.part fragNum).addr + off⟩ <
      ((s :: next).map fun s => s.frags.length + 1).sum := by
    rw [map_cons, sum_cons, CutSt.turns]
    show (next.map fun s => s.frags.length + 1).sum + (s.frags.length - nextNum fragNum) < _
    omega
  have hstep : ∀ st st', st.Wf → cutStep env stop st = .inl st' →
      st'.Wf ∧ st'.turns < st.turns := fun st st' hst hnext => (cutStep_next hst hnext).1
  obtain ⟨r, hr, hends⟩ := IterLib.iterate_ends hstep hwf hturns
  have hcut := cut_leave hends hwf
  have hoffset : CutSt.offset ⟨[], s, next, fragNum, (s.part fragNum).addr + off⟩ = off :=
    Nat.add_sub_cancel_left _ _
  rw [hoffset] at hcut
  rw [ssSkbCutExtraData, hr]
  exact hcut

variable {q : Part}

lemma points_drop (hk : ps[k]? = some p) (hj : ps[j]? = some q) (ho : o ≤ q.frag.size)
    (hoff : off ≤ p.frag.size) (hlater : k < j ∨ k = j ∧ off ≤ o) :
    posOf ps k off ≤ posOf ps j o ∧
      Points (q.frag.addr + o) off (off + (posOf ps j o - posOf ps k off)) (ps.drop k) := by
  obtain ⟨hklen, rfl⟩ := List.getElem?_eq_some_iff.mp hk
  obtain ⟨hjlen, rfl⟩ := List.getElem?_eq_some_iff.mp hj
  obtain ⟨a, ha⟩ : ∃ a, a = (ps.drop k).take (j - k) := ⟨_, rfl⟩
  have hle : k ≤ j := by omega
  have htake : ps.take j = ps.take k ++ a := by
    rw [ha, ← take_add, Nat.add_sub_cancel' hle]
  have hdrop : ps.drop k = a ++ ps[j] :: ps.drop (j + 1) := by
    rw [← drop_eq_getElem_cons hjlen, ha]
    have h := take_append_drop (j - k) (ps.drop k)
    rw [drop_drop, Nat.add_sub_cancel' hle] at h
    exact h.symm
  have hpos : posOf ps j o = ((ps.take k).flatMap Part.cells).length +
      (a.flatMap Part.cells).length + o := by
    rw [posOf, htake, flatMap_append, length_append]
  have hfirst : off ≤ (a.flatMap Part.cells).length + o := by
    obtain hlt | ⟨-, hoff'⟩ := hlater
    · have hcons : a = ps[k] :: (ps.drop (k + 1)).take (j - k - 1) := by
        rw [ha, drop_eq_getElem_cons hklen, ← take_succ_cons]
        congr 1
        omega
      have hsize := Part.length_cells ps[k]
      rw [hcons, flatMap_cons, length_append]
      omega
    · omega
  have hbase : posOf ps k off = ((ps.take k).flatMap Part.cells).length + off := rfl
  refine ⟨by omega, a, _, _, o, hdrop, ho, rfl, by omega, ?_⟩
  intro hnil
  rw [hnil, flatMap_nil, length_nil, Nat.zero_add] at hfirst
  exact hfirst

/-- The bytes between the two pointers are cut out of the data, and this does not fail if there
is memory for a buffer: if and only if the layout of the parts on the way is a clear one. -/
theorem cutExtraData_exact_iff {j o : Nat} {q : Part} (hs : ∀ u ∈ s :: next, Sound u)
    (hapart : Apart (parts (s :: next))) (hnum : nextNum fragNum ≤ s.frags.length)
    (hj : (parts (s :: next))[j]? = some q) (ho : o ≤ q.frag.size)
    (hoff : off ≤ (s.part fragNum).size)
    (hlater : nextNum fragNum < j ∨ nextNum fragNum = j ∧ off ≤ o) :
    ((∀ env l, ssSkbCutExtraData env s next fragNum ((s.part fragNum).addr + off)
        (q.frag.addr + o) = some l →
      cells l = (cells (s :: next)).take (posOf (parts (s :: next)) (nextNum fragNum) off) ++
        (cells (s :: next)).drop (posOf (parts (s :: next)) j o)) ∧
    (∀ env : SkbEnv, env.nskb.isSome → (ssSkbCutExtraData env s next fragNum
      ((s.part fragNum).addr + off) (q.frag.addr + o)).isSome)) ↔
    Clear (q.frag.addr + o) false
      (posOf (parts (s :: next)) j o - posOf (parts (s :: next)) (nextNum fragNum) off) off
      ((parts (s :: next)).drop (nextNum fragNum)) := by
  have hpart : (parts (s :: next))[nextNum fragNum]? = some ⟨fragNum.isSome, s.part fragNum⟩ := by
    have hlen := length_parts s
    rw [parts_cons, getElem?_append_left (by omega), ← head?_drop, drop_parts hnum]
    rfl
  obtain ⟨hle, hpoints⟩ := points_drop hpart hj ho hoff hlater
  obtain ⟨want, hwant⟩ : ∃ w, w = posOf (parts (s :: next)) j o -
      posOf (parts (s :: next)) (nextNum fragNum) off := ⟨_, rfl⟩
  rw [← hwant] at hpoints ⊢
  obtain ⟨a, ha⟩ : ∃ a, a = ((parts (s :: next)).take (nextNum fragNum)).flatMap Part.cells :=
    ⟨_, rfl⟩
  obtain ⟨ps, hps⟩ : ∃ ps, ps = (parts (s :: next)).drop (nextNum fragNum) := ⟨_, rfl⟩
  have hcells : cells (s :: next) = a ++ ps.flatMap Part.cells := by
    rw [ha, hps, ← flatMap_append, take_append_drop, cells_parts]
  have hfrom : posOf (parts (s :: next)) (nextNum fragNum) off = a.length + off := by rw [ha, posOf]
  have hto : posOf (parts (s :: next)) j o = a.length + (off + want) := by omega
  have hright : (cells (s :: next)).take (posOf (parts (s :: next)) (nextNum fragNum) off) ++
      (cells (s :: next)).drop (posOf (parts (s :: next)) j o) =
        a ++ ((ps.flatMap Part.cells).take off ++ (ps.flatMap Part.cells).drop (off + want)) := by
    rw [hcells, hfrom, hto, take_length_add_append, drop_length_add_append,
      append_assoc]
  rw [hright]
  have hleave := fun env : SkbEnv =>
    ssSkbCutExtraData_leave env off (q.frag.addr + o) hs hnum
  rw [← ha, ← hps] at hleave
  rw [← hps] at hpoints ⊢
  constructor
  · rintro ⟨hdata, hsome⟩
    let env : SkbEnv := ⟨none, some (0, 0), fun _ => 0⟩
    obtain ⟨l, hl⟩ := Option.isSome_iff_exists.mp (hsome env rfl)
    obtain ⟨x, hx, hlcells⟩ := (hleave env).1 l hl
    rw [hdata env l hl] at hlcells
    rw [← append_cancel_left hlcells] at hx
    have hapart' : Apart ps := by
      rw [Apart, cells_parts, hcells, map_append] at hapart
      exact (nodup_append.mp hapart).2.1
    exact clear_of_leave hapart' hpoints (fun h => nomatch h) hx
  · intro hclear
    have hx := leave_of_clear hclear (fun h => nomatch h)
    constructor
    · intro env l hl
      obtain ⟨x, hx', hlcells⟩ := (hleave env).1 l hl
      rw [hlcells, Option.some.inj (hx'.symm.trans hx)]
    · intro env hnskb
      exact (hleave env).2 hnskb (by rw [hx]; rfl)

/-- From the linear part of one buffer to that of the next -/
theorem cutExtraData_two_buffers :
    (∀ env l, ssSkbCutExtraData env ⟨⟨100, [1, 2, 3]⟩, 0, true, [], 3, 0⟩
        [⟨⟨200, [4, 5]⟩, 0, true, [], 2, 0⟩] none 101 201 = some l →
      cells l = [(100, 1), (201, 5)]) ∧
    (∀ env : SkbEnv, env.nskb.isSome →
      (ssSkbCutExtraData env ⟨⟨100, [1, 2, 3]⟩, 0, true, [], 3, 0⟩
        [⟨⟨200, [4, 5]⟩, 0, true, [], 2, 0⟩] none 101 201).isSome) := by
  have hsound : ∀ u ∈ [(⟨⟨100, [1, 2, 3]⟩, 0, true, [], 3, 0⟩ : SkBuff),
      ⟨⟨200, [4, 5]⟩, 0, true, [], 2, 0⟩], Sound u := by
    intro u hu
    obtain rfl | hu := mem_cons.mp hu
    · exact ⟨by decide, rfl, rfl⟩
    · obtain rfl := mem_singleton.mp hu
      exact ⟨by decide, rfl, rfl⟩
  have hsecond : (parts [⟨⟨100, [1, 2, 3]⟩, 0, true, [], 3, 0⟩,
      ⟨⟨200, [4, 5]⟩, 0, true, [], 2, 0⟩])[1]? = some ⟨false, ⟨200, [4, 5]⟩⟩ := rfl
  refine (@cutExtraData_exact_iff _ _ none 1 1 1 _ hsound (by decide) (by decide) hsecond
    (by decide) (by decide) (.inl (by decide))).mpr ?_
  exact ⟨by decide, by decide, by decide, rfl⟩

/-- Three fragments, and the second pointer in the middle of the last: if the first pointer is in
the middle of the first one then the third is passed over and the loop fails; from the start of
the first one the second is passed over and stays. -/
theorem fragment_passed_over :
    ssSkbCutExtraData ⟨some 5000, some (7000, 0), fun _ => 0⟩
      ⟨⟨100, []⟩, 0, true, [⟨200, [1, 2]⟩, ⟨300, [3, 4]⟩, ⟨400, [5, 6]⟩], 6, 6⟩ [] (some 0)
      201 401 = none ∧
    (ssSkbCutExtraData ⟨some 5000, some (7000, 0), fun _ => 0⟩
      ⟨⟨100, []⟩, 0, true, [⟨200, [1, 2]⟩, ⟨300, [3, 4]⟩, ⟨400, [5, 6]⟩], 6, 6⟩ [] (some 0)
      200 401).map cells = some [(300, 3), (301, 4), (401, 6)] := by
  decide

end exact

end Tempesta.SsSkb
