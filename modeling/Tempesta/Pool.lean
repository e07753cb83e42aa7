import Tempesta.Lib.Run

/-!
The memory pool of `fw/pool.c`: a stack of page chunks, the chunk with the pool
header at its bottom. The memory behind the addresses is not modelled, only the
addresses, the chunk descriptors and the calls of `tfw_pool_alloc_pages` and
`tfw_pool_free_pages`. What `tfw_pool_alloc_pages` answers is an input.
-/

namespace Tempesta.Pool

open List Option

def pageSize : Nat := 4096

/-- `sizeof(TfwPoolChunk)` -/
def sizeofTfwPoolChunk : Nat := 16

/-- `sizeof(TfwPool)` -/
def sizeofTfwPool : Nat := 16

/-- `TFW_POOL_ALIGN_SZ`, on `size_t` -/
def tfwPoolAlignSz (n : Nat) : Nat := (n + 7) % 2 ^ 64 / 8 * 8

def tfwPoolHeadOff : Nat := tfwPoolAlignSz sizeofTfwPool + tfwPoolAlignSz sizeofTfwPoolChunk

def fls64 (x : Nat) : Nat := if x = 0 then 0 else x.log2 + 1

def getOrder (size : Nat) : Nat := if size = 0 then 52 else fls64 ((size - 1) / pageSize)

/-- An argument of `tfw_pool_free_pages`, or what `tfw_pool_alloc_pages` gave. -/
structure Pages where
  addr : Nat
  order : Nat
  deriving DecidableEq, Repr

/-- A chunk descriptor with the address it stands at. `next` is the next chunk of
the list the descriptor is in. -/
structure TfwPoolChunk where
  addr : Nat
  order : Nat
  off : Nat
  deriving DecidableEq, Repr

/-- `curr`, the chunks reached from it by `next`, and the cached members. -/
structure TfwPool where
  curr : TfwPoolChunk
  rest : List TfwPoolChunk
  order : Nat
  off : Nat
  deriving DecidableEq, Repr

def TfwPoolChunk.size (c : TfwPoolChunk) : Nat := pageSize * 2 ^ c.order

def TfwPoolChunk.pages (c : TfwPoolChunk) : Pages := ⟨c.addr, c.order⟩

namespace TfwPool

/-- `TFW_POOL_CHUNK_SZ` -/
def chunkSz (p : TfwPool) : Nat := pageSize * 2 ^ p.order

/-- `TFW_POOL_CHUNK_END` -/
def chunkEnd (p : TfwPool) : Nat := p.curr.addr + p.off

/-- The page chunks linked from `curr`. -/
def linked (p : TfwPool) : List Pages := (p.curr :: p.rest).map TfwPoolChunk.pages

end TfwPool

/-- `desc_size` of `__tfw_pool_alloc` -/
def descSize (align : Bool) : Nat :=
  if align then tfwPoolAlignSz sizeofTfwPoolChunk else sizeofTfwPoolChunk

/-- The offset behind the first allocation of a new chunk, an `unsigned int`. -/
def newOff (n : Nat) (align : Bool) : Nat := (descSize align + n) % 2 ^ 32

/-- What an allocation gives back: the address, whether it is on a new page, and
the pages it took. -/
structure AllocRes where
  pool : TfwPool
  ptr : Option Nat
  newPage : Bool
  got : Option Pages

/-- `__tfw_pool_alloc`; `page` is the answer of `tfw_pool_alloc_pages`. -/
def tfwPoolAlloc (p : TfwPool) (n : Nat) (align : Bool) (page : Option Nat) : AllocRes :=
  let n := if align then tfwPoolAlignSz n else n
  if (p.off + n) % 2 ^ 64 > p.chunkSz then
    let off := newOff n align
    let order := getOrder off
    match page with
    | none => ⟨p, none, false, none⟩
    | some c =>
      let curr := { p.curr with off := p.off }
      ⟨⟨⟨c, order, 0⟩, curr :: p.rest, order, off⟩,
        some (if align then tfwPoolAlignSz (c + sizeofTfwPoolChunk)
          else c + sizeofTfwPoolChunk),
        true, some ⟨c, order⟩⟩
  else
    ⟨{ p with off := (p.off + n) % 2 ^ 32 }, some p.chunkEnd, false, none⟩

/-- `__tfw_pool_realloc`; `none` is its `BUG_ON`. -/
def tfwPoolRealloc (p : TfwPool) (ptr oldN newN : Nat) (page : Option Nat) : Option AllocRes :=
  if newN < oldN then none
  else
    let oldN := tfwPoolAlignSz oldN
    let newN := tfwPoolAlignSz newN
    if ptr + oldN = p.chunkEnd ∧ (p.off + 2 ^ 64 - oldN + newN) % 2 ^ 64 ≤ p.chunkSz then
      some ⟨{ p with off := (p.off + (newN + 2 ^ 64 - oldN)) % 2 ^ 32 }, some ptr, false, none⟩
    else
      some (tfwPoolAlloc p newN true page)

/-- `tfw_pool_free` and the pages it returned; `none` is the access to the chunk
below the last one. -/
def tfwPoolFree (p : TfwPool) (ptr n : Nat) : Option (TfwPool × List Pages) :=
  let n := tfwPoolAlignSz n
  if ptr + n ≠ p.chunkEnd then some (p, [])
  else
    let p := { p with off := (p.off + (2 ^ 64 - n)) % 2 ^ 32 }
    if p.off = tfwPoolAlignSz sizeofTfwPoolChunk then
      match p.rest with
      | [] => none
      | next :: rest => some (⟨next, rest, next.order, next.off⟩, [⟨p.curr.addr, p.order⟩])
    else some (p, [])

/-- The loop of `tfw_pool_clean` over the chunks behind `curr`: the list from the
chunk at which it stops, and the pages it returned. -/
def cleanLoop : List TfwPoolChunk → Option Nat → List TfwPoolChunk × List Pages
  | [], _ => ([], [])
  | [c], _ => ([c], [])
  | c :: next :: cs, none =>
    let r := cleanLoop (next :: cs) none
    (r.1, c.pages :: r.2)
  | c :: next :: cs, some ptr =>
    if ptr < c.addr ∨ ptr ≥ c.addr + c.off then cleanLoop (next :: cs) (some ptr)
    else
      let r := cleanLoop (next :: cs) none
      (r.1, c.pages :: r.2)

def tfwPoolClean (p : TfwPool) (ptr : Option Nat) : TfwPool × List Pages :=
  let r := cleanLoop p.rest ptr
  ({ p with rest := r.1 }, r.2)

/-- `__tfw_pool_new` on the pages at `c` -/
def tfwPoolNew (n c : Nat) : TfwPool :=
  let order := getOrder ((tfwPoolAlignSz n + tfwPoolHeadOff) % 2 ^ 64)
  ⟨⟨c, order, tfwPoolHeadOff⟩, [], order, tfwPoolHeadOff⟩

/-- The pages `tfw_pool_destroy` returns. -/
def tfwPoolDestroy (p : TfwPool) : List Pages := (p.curr :: p.rest).map TfwPoolChunk.pages

inductive PoolCall where
  | alloc (n : Nat) (align : Bool) (page : Option Nat)
  | realloc (ptr oldN newN : Nat) (page : Option Nat)
  | free (ptr n : Nat)
  | clean (ptr : Option Nat)
  deriving DecidableEq, Repr

/-- A pool, every page chunk it obtained and returned, and the addresses it gave
out with the sizes it gave them out for. -/
structure PoolState where
  pool : TfwPool
  obtained : List Pages
  returned : List Pages
  issued : List (Nat × Nat)
  deriving DecidableEq

/-- The loop of `tfw_pool_clean` does not pass over the first chunk. -/
def StartsAtFirst : List TfwPoolChunk → Option Nat → Prop
  | c :: _ :: _, some a => c.addr ≤ a ∧ a < c.addr + c.off
  | _, _ => True

instance : (cs : List TfwPoolChunk) → (ptr : Option Nat) → Decidable (StartsAtFirst cs ptr)
  | c :: _ :: _, some a => inferInstanceAs (Decidable (c.addr ≤ a ∧ a < c.addr + c.off))
  | [], _ | [_], _ | _ :: _ :: _, none => .isTrue trivial

namespace PoolState

def allocated (s : PoolState) (r : AllocRes) (n : Nat) : PoolState where
  pool := r.pool
  obtained := s.obtained ++ r.got.toList
  returned := s.returned
  issued := s.issued ++ (r.ptr.map (·, n)).toList

def freed (s : PoolState) (r : TfwPool × List Pages) : PoolState :=
  { s with pool := r.1, returned := s.returned ++ r.2 }

def step (s : PoolState) : PoolCall → Option PoolState
  | .alloc n align page => some (s.allocated (tfwPoolAlloc s.pool n align page) n)
  | .realloc ptr oldN newN page =>
    (tfwPoolRealloc s.pool ptr oldN newN page).map (s.allocated · newN)
  | .free ptr n => (tfwPoolFree s.pool ptr n).map s.freed
  | .clean ptr => some (s.freed (tfwPoolClean s.pool ptr))

/-- A pool just made on the pages at `c`. -/
def init (n c : Nat) : PoolState where
  pool := tfwPoolNew n c
  obtained := [(tfwPoolNew n c).curr.pages]
  returned := []
  issued := []

/-- `tfw_pool_destroy` -/
def destroy (s : PoolState) : List Pages := s.returned ++ tfwPoolDestroy s.pool

/-- Up to this size a request and the chunk obtained for it fit `unsigned int`. -/
def sizeMax : Nat := 2 ^ 31 - 32

/-- Pages that `tfw_pool_alloc_pages` may give: in no linked chunk. -/
def Unused (s : PoolState) (pg : Pages) : Prop :=
  pg.addr % pageSize = 0 ∧ pg.addr + pageSize * 2 ^ pg.order < 2 ^ 64 ∧
    ∀ c ∈ s.pool.curr :: s.pool.rest,
      pg.addr + pageSize * 2 ^ pg.order ≤ c.addr ∨ c.addr + c.size ≤ pg.addr

/-- `ptr` was given out by the pool, for at least `n` bytes. -/
def Issued (s : PoolState) (ptr n : Nat) : Prop := ∃ q ∈ s.issued, q.1 = ptr ∧ n ≤ q.2

def Valid (s : PoolState) : PoolCall → Prop
  | .alloc n align page =>
    n ≤ sizeMax ∧
      ∀ pg ∈ (tfwPoolAlloc s.pool n align page).got, s.Unused pg
  | .realloc ptr oldN newN page =>
    s.Issued ptr oldN ∧ oldN ≤ newN ∧ newN ≤ sizeMax ∧
      ∀ r ∈ tfwPoolRealloc s.pool ptr oldN newN page, ∀ pg ∈ r.got, s.Unused pg
  | .free ptr n => s.Issued ptr n
  | .clean ptr => ∀ a ∈ ptr, s.Issued a 0

/-- A cleaning starts at the chunk below the current one: there is no chunk between
the current one and the last, or it is told no address, or one in the chunk below. -/
def CleansFromTop (s : PoolState) : PoolCall → Prop
  | .clean ptr => StartsAtFirst s.pool.rest ptr
  | _ => True

instance (s : PoolState) (pg : Pages) : Decidable (s.Unused pg) := by
  unfold Unused
  infer_instance

instance (s : PoolState) (ptr n : Nat) : Decidable (s.Issued ptr n) := by
  unfold Issued
  infer_instance

instance (s : PoolState) : (call : PoolCall) → Decidable (s.Valid call)
  | .alloc n align page => by
      unfold Valid
      infer_instance
  | .realloc ptr oldN newN page => by
      unfold Valid
      infer_instance
  | .free ptr n => inferInstanceAs (Decidable (s.Issued ptr n))
  | .clean ptr => by
      unfold Valid
      infer_instance

instance (s : PoolState) : (call : PoolCall) → Decidable (s.CleansFromTop call)
  | .clean ptr => inferInstanceAs (Decidable (StartsAtFirst s.pool.rest ptr))
  | .alloc .. | .realloc .. | .free .. => .isTrue trivial

/-- Every page chunk ever obtained is linked from `curr` or was returned, and not
twice. -/
def Accounted (s : PoolState) : Prop := s.obtained.Perm (s.returned ++ s.pool.linked)

end PoolState

variable {n m x k base off order oldN newN : Nat} {newPage align : Bool} {page : Option Nat}

lemma tfwPoolAlignSz_eq (h : n ≤ PoolState.sizeMax) : tfwPoolAlignSz n = (n + 7) / 8 * 8 := by
  have h' : n + 7 < 2 ^ 64 := by
    unfold PoolState.sizeMax at h
    omega
  rw [tfwPoolAlignSz, Nat.mod_eq_of_lt h']

lemma tfwPoolAlignSz_le (h : n ≤ PoolState.sizeMax) :
    tfwPoolAlignSz n ≤ n + 7 ∧ tfwPoolAlignSz n ≤ PoolState.sizeMax := by
  rw [tfwPoolAlignSz_eq h]
  unfold PoolState.sizeMax at *
  omega

lemma tfwPoolAlignSz_mono (hnm : n ≤ m) (hm : m ≤ PoolState.sizeMax) :
    tfwPoolAlignSz n ≤ tfwPoolAlignSz m := by
  rw [tfwPoolAlignSz_eq hm, tfwPoolAlignSz_eq (Nat.le_trans hnm hm)]
  omega

lemma descSize_eq (align : Bool) : descSize align = 16 := by
  cases align <;> rfl

lemma tfwPoolHeadOff_eq : tfwPoolHeadOff = 32 := rfl

lemma lt_two_pow_fls64 (x : Nat) : x < 2 ^ fls64 x := by
  unfold fls64
  split
  · omega
  · exact Nat.lt_log2_self

lemma le_getOrder (size : Nat) (h : size < 2 ^ 32) : size ≤ pageSize * 2 ^ getOrder size := by
  unfold getOrder
  split
  · omega
  · have := lt_two_pow_fls64 ((size - 1) / pageSize)
    unfold pageSize at *
    omega

lemma fls64_le (h : x < 2 ^ k) : fls64 x ≤ k := by
  unfold fls64
  split
  · omega
  · exact (Nat.log2_lt ‹_›).mpr h

/-- The chunks of the pool, the current one with its cached members. -/
def TfwPool.chunks (p : TfwPool) : List TfwPoolChunk := ⟨p.curr.addr, p.order, p.off⟩ :: p.rest

/-- The chunk has no byte in common with the `size` bytes at `base`. -/
def TfwPoolChunk.Apart (base size : Nat) (c : TfwPoolChunk) : Prop :=
  c.addr + c.size ≤ base ∨ base + size ≤ c.addr

/-- The stack ends with the chunk of the pool header, which keeps the header; the
chunks over it are elsewhere. -/
def HomeLast (base size : Nat) : List TfwPoolChunk → Prop
  | [] => False
  | [c] => c.addr = base ∧ c.size = size ∧ tfwPoolHeadOff ≤ c.off ∧ c.off ≤ size
  | c :: next :: cs => c.Apart base size ∧ HomeLast base size (next :: cs)

variable {ptr : Option Nat}

section HomeLast
variable {c : TfwPoolChunk} {cs : List TfwPoolChunk} {size : Nat}

lemma HomeLast.push (h : HomeLast base size cs) (hc : c.Apart base size) :
    HomeLast base size (c :: cs) := by
  cases cs with
  | nil => exact h.elim
  | cons next cs => exact ⟨hc, h⟩

lemma HomeLast.setOff (h : HomeLast base size (c :: cs))
    (hoff : cs = [] → tfwPoolHeadOff ≤ off ∧ off ≤ size) :
    HomeLast base size ({ c with off := off } :: cs) := by
  cases cs with
  | nil => exact ⟨h.1, h.2.1, hoff rfl⟩
  | cons next cs => exact h

lemma HomeLast.head (h : HomeLast base size (c :: cs)) :
    (cs = [] ∧ c.addr = base ∧ c.size = size ∧ tfwPoolHeadOff ≤ c.off ∧ c.off ≤ size) ∨
      (cs ≠ [] ∧ c.Apart base size) := by
  cases cs with
  | nil => exact .inl ⟨rfl, h⟩
  | cons next cs => exact .inr ⟨cons_ne_nil _ _, h.1⟩

lemma HomeLast.home_mem (h : HomeLast base size cs) :
    ∃ c ∈ cs, c.addr = base ∧ c.size = size := by
  induction cs with
  | nil => exact h.elim
  | cons c cs ih =>
    cases cs with
    | nil => exact ⟨c, mem_cons_self, h.1, h.2.1⟩
    | cons next cs =>
      obtain ⟨d, hd, heq⟩ := ih h.2
      exact ⟨d, mem_cons_of_mem _ hd, heq⟩

lemma cleanLoop_none (cs : List TfwPoolChunk) :
    (cleanLoop cs none).2 ++ (cleanLoop cs none).1.map TfwPoolChunk.pages =
      cs.map TfwPoolChunk.pages := by
  induction cs with
  | nil => rfl
  | cons c cs ih =>
    cases cs with
    | nil => rfl
    | cons next cs => exact congrArg (c.pages :: ·) ih

lemma HomeLast.cleaned (ptr : Option Nat) (h : HomeLast base size cs) :
    HomeLast base size (cleanLoop cs ptr).1 := by
  fun_induction cleanLoop cs ptr with
  | case1 => exact h
  | case2 => exact h
  | case3 c next cs r ih => exact ih h.2
  | case4 c next cs ptr hout ih => exact ih h.2
  | case5 c next cs ptr hin r ih => exact ih h.2

lemma HomeLast.cleanedBelow (ptr : Option Nat) (h : HomeLast base size (c :: cs)) :
    HomeLast base size (c :: (cleanLoop cs ptr).1) := by
  cases cs with
  | nil => exact h
  | cons next cs => exact (HomeLast.cleaned ptr h.2).push h.1

lemma mem_cleanLoop (hc : c ∈ (cleanLoop cs ptr).1) : c ∈ cs := by
  fun_induction cleanLoop cs ptr with
  | case1 => exact hc
  | case2 => exact hc
  | case3 d next cs r ih => exact mem_cons_of_mem _ (ih hc)
  | case4 d next cs ptr hout ih => exact mem_cons_of_mem _ (ih hc)
  | case5 d next cs ptr hin r ih => exact mem_cons_of_mem _ (ih hc)

lemma length_cleanLoop_le (cs : List TfwPoolChunk) (ptr : Option Nat) :
    (cleanLoop cs ptr).2.length + (cleanLoop cs ptr).1.length ≤ cs.length := by
  fun_induction cleanLoop cs ptr with
  | case1 => exact Nat.le_refl _
  | case2 => exact Nat.le_refl _
  | case3 c next cs r ih =>
    replace ih : r.2.length + r.1.length ≤ (next :: cs).length := ih
    simp only [length_cons] at ih ⊢
    omega
  | case4 c next cs ptr hout ih =>
    simp only [length_cons] at ih ⊢
    omega
  | case5 c next cs ptr hin r ih =>
    replace ih : r.2.length + r.1.length ≤ (next :: cs).length := ih
    simp only [length_cons] at ih ⊢
    omega

lemma cleanLoop_pages (h : StartsAtFirst cs ptr) :
    (cleanLoop cs ptr).2 ++ (cleanLoop cs ptr).1.map TfwPoolChunk.pages =
      cs.map TfwPoolChunk.pages := by
  match cs, ptr with
  | [], _ => rfl
  | [c], _ => rfl
  | c :: next :: cs, none => exact cleanLoop_none _
  | c :: next :: cs, some a =>
    have hin : ¬ (a < c.addr ∨ a ≥ c.addr + c.off) := by
      have := h.1
      have := h.2
      omega
    rw [cleanLoop, if_neg hin]
    exact congrArg (c.pages :: ·) (cleanLoop_none (next :: cs))

lemma length_cleanLoop_lt (h : ¬ StartsAtFirst cs ptr) :
    (cleanLoop cs ptr).2.length + (cleanLoop cs ptr).1.length < cs.length := by
  match cs, ptr with
  | [], _ | [_], _ | _ :: _ :: _, none => exact absurd trivial h
  | c :: next :: cs, some a =>
    have hout : a < c.addr ∨ a ≥ c.addr + c.off := by
      by_contra hin
      exact h ⟨by omega, by omega⟩
    rw [cleanLoop, if_pos hout]
    exact Nat.lt_succ_of_le (length_cleanLoop_le _ _)

end HomeLast

namespace PoolState
variable {s : PoolState} {size : Nat}

structure Inv (base size : Nat) (s : PoolState) : Prop where
  pages : s.Accounted
  order : s.pool.order = s.pool.curr.order
  room : tfwPoolHeadOff ≤ size ∧ size < 2 ^ 32
  home : HomeLast base size s.pool.chunks
  offs : ∀ c ∈ s.pool.chunks, c.off < 2 ^ 32
  issuedMax : ∀ q ∈ s.issued, q.2 ≤ sizeMax
  /-- A freed address does not lead into the pool header. -/
  issued : ∀ q ∈ s.issued, base + tfwPoolHeadOff ≤ q.1 ∨
    q.1 + tfwPoolAlignSz q.2 < base + tfwPoolHeadOff

lemma Issued.safe {ptr : Nat} (h : s.Inv base size) (hq : s.Issued ptr n) :
    base + tfwPoolHeadOff ≤ ptr ∨ ptr + tfwPoolAlignSz n < base + tfwPoolHeadOff := by
  obtain ⟨q, hq, rfl, hn⟩ := hq
  have hmono := tfwPoolAlignSz_mono hn (h.issuedMax q hq)
  cases h.issued q hq with
  | inl hle => exact .inl hle
  | inr hlt => exact .inr (by omega)

/-- The members of the last chunk, when it is the current one -/
theorem Inv.last (h : s.Inv base size) (hrest : s.pool.rest = []) : s.pool.curr.addr = base ∧
    s.pool.chunkSz = size ∧ tfwPoolHeadOff ≤ s.pool.off ∧ s.pool.off ≤ size :=
  (h.home.head.resolve_right fun hne => hne.1 hrest).2

variable {r : AllocRes}

lemma forall_issued {P : Nat × Nat → Prop} (h : ∀ q ∈ s.issued, P q)
    (hptr : ∀ ptr ∈ r.ptr, P (ptr, m)) : ∀ q ∈ (s.allocated r m).issued, P q := by
  intro q hq
  cases mem_append.mp hq with
  | inl hq => exact h q hq
  | inr hq =>
    obtain ⟨ptr, hr, rfl⟩ := Option.map_eq_some_iff.mp (Option.mem_toList.mp hq)
    exact hptr ptr hr

/-- A request served from the current chunk: its offset moves up to `off`, and an
address in it is given out. -/
theorem Inv.inPlace (h : s.Inv base size) (ptr : Nat)
    (hr : r.pool = { s.pool with off := off } ∧ r.ptr = some ptr ∧ r.got = none) (hm : m ≤ sizeMax)
    (hmax : off < 2 ^ 32) (hoff : s.pool.rest = [] → tfwPoolHeadOff ≤ off ∧ off ≤ size)
    (hptr : base + tfwPoolHeadOff ≤ ptr ∨ ptr + tfwPoolAlignSz m < base + tfwPoolHeadOff) :
    (s.allocated r m).Inv base size := by
  obtain ⟨pool, rptr, newPage, got⟩ := r
  obtain ⟨rfl, rfl, rfl⟩ := hr
  refine ⟨?_, h.order, h.room, h.home.setOff hoff, ?_, ?_, ?_⟩
  · show (s.obtained ++ []).Perm (s.returned ++ s.pool.linked)
    rw [append_nil]
    exact h.pages
  · exact forall_mem_cons.mpr ⟨hmax, (forall_mem_cons.mp h.offs).2⟩
  · exact forall_issued h.issuedMax fun _ _ => hm
  · exact forall_issued h.issued fun _ hp => Option.some.inj hp ▸ hptr

lemma Inv.newChunk {c ptr : Nat} (h : s.Inv base size) (hfree : s.Unused ⟨c, order⟩)
    (hm : m ≤ sizeMax) (hmax : off < 2 ^ 32) (hlo : c ≤ ptr)
    (hhi : ptr + tfwPoolAlignSz m ≤ c + pageSize * 2 ^ order + 7) :
    (s.allocated ⟨⟨⟨c, order, 0⟩, { s.pool.curr with off := s.pool.off } :: s.pool.rest,
      order, off⟩, some ptr, newPage, some ⟨c, order⟩⟩ m).Inv base size := by
  have hapart : TfwPoolChunk.Apart base size ⟨c, order, off⟩ := by
    obtain ⟨d, hd, rfl, rfl⟩ := h.home.home_mem
    rw [TfwPool.chunks, h.order] at hd
    cases mem_cons.mp hd with
    | inl hd =>
      subst hd
      exact hfree.2.2 s.pool.curr mem_cons_self
    | inr hd => exact hfree.2.2 _ (mem_cons_of_mem _ hd)
  have hroom := h.room.1
  refine ⟨?_, rfl, h.room, ?_, ?_, ?_, ?_⟩
  · show (s.obtained ++ [Pages.mk c order]).Perm (s.returned ++ Pages.mk c order :: s.pool.linked)
    exact (perm_append_singleton _ _).trans ((h.pages.cons _).trans perm_middle.symm)
  · show HomeLast base size (⟨c, order, off⟩ :: { s.pool.curr with off :=
    s.pool.off } :: s.pool.rest)
    have hhome := h.home
    rw [TfwPool.chunks, h.order] at hhome
    exact hhome.push hapart
  · have hoffs := forall_mem_cons.mp h.offs
    exact forall_mem_cons.mpr ⟨hmax, forall_mem_cons.mpr hoffs⟩
  · exact forall_issued h.issuedMax fun _ _ => hm
  · refine forall_issued h.issued fun _ hp => ?_
    obtain rfl := Option.some.inj hp
    cases hapart with
    | inl hbelow =>
      replace hbelow : c + pageSize * 2 ^ order ≤ base := hbelow
      exact .inr (by show ptr + tfwPoolAlignSz m < _; rw [tfwPoolHeadOff_eq]; omega)
    | inr habove =>
      replace habove : base + size ≤ c := habove
      exact .inl (by show _ ≤ ptr; omega)

lemma alignSz_page {c : Nat} (hc : c % pageSize = 0) (hmax : c + pageSize ≤ 2 ^ 64) :
    tfwPoolAlignSz (c + sizeofTfwPoolChunk) = c + sizeofTfwPoolChunk := by
  unfold tfwPoolAlignSz pageSize sizeofTfwPoolChunk at *
  omega

/-- `__tfw_pool_alloc` of `n` bytes, given out as `m` bytes. -/
theorem Inv.alloc (h : s.Inv base size) (hn : n ≤ sizeMax) (hm : m ≤ sizeMax)
    (hnm : tfwPoolAlignSz m ≤ n + 7)
    (hfree : ∀ pg ∈ (tfwPoolAlloc s.pool n align page).got, s.Unused pg) :
    (s.allocated (tfwPoolAlloc s.pool n align page) m).Inv base size := by
  unfold tfwPoolAlloc at hfree ⊢
  generalize hk : (if align then tfwPoolAlignSz n else n) = k at hfree ⊢
  have hkn : n ≤ k ∧ k ≤ sizeMax := by
    have := tfwPoolAlignSz_le hn
    have := tfwPoolAlignSz_eq hn
    subst hk
    split <;> omega
  have hkmax : k ≤ 2 ^ 31 - 32 := hkn.2
  have hofflt : s.pool.off < 2 ^ 32 := (forall_mem_cons.mp h.offs).1
  have hno : (s.pool.off + k) % 2 ^ 64 = s.pool.off + k := Nat.mod_eq_of_lt (by omega)
  dsimp only at hfree ⊢
  rw [hno] at hfree ⊢
  split at hfree
  · rename_i hfull
    rw [if_pos hfull]
    have hoff : newOff k align = 16 + k := by
      rw [newOff, descSize_eq, Nat.mod_eq_of_lt (by omega)]
    cases page with
    | none =>
      refine ⟨?_, h.order, h.room, h.home, h.offs, ?_, ?_⟩
      · show (s.obtained ++ []).Perm (s.returned ++ s.pool.linked)
        rw [append_nil]
        exact h.pages
      · exact forall_issued h.issuedMax nofun
      · exact forall_issued h.issued nofun
    | some c =>
      have hun : s.Unused ⟨c, getOrder (newOff k align)⟩ := hfree _ rfl
      rw [hoff] at hun
      have hfits := le_getOrder (16 + k) (by omega)
      have hpos : 1 ≤ 2 ^ getOrder (16 + k) := Nat.one_le_two_pow
      have hptr : (if align then tfwPoolAlignSz (c + sizeofTfwPoolChunk)
          else c + sizeofTfwPoolChunk) = c + 16 := by
        have hend : c + pageSize * 2 ^ getOrder (16 + k) < 2 ^ 64 := hun.2.1
        unfold pageSize at hend
        rw [alignSz_page (c := c) hun.1 (by unfold pageSize; omega), ite_self]
        rfl
      dsimp only
      rw [hptr, hoff]
      exact h.newChunk hun hm (by omega) (by omega) (by omega)
  · rename_i hroom
    rw [if_neg hroom]
    apply h.inPlace s.pool.chunkEnd ⟨rfl, rfl, rfl⟩ hm (Nat.mod_lt _ (by decide))
    · intro hrest
      obtain ⟨-, hsz, hlo, hhi⟩ := h.last hrest
      have := h.room.2
      rw [Nat.mod_eq_of_lt (by omega)]
      omega
    · show _ ≤ s.pool.curr.addr + s.pool.off ∨ s.pool.curr.addr + s.pool.off + _ < _
      obtain ⟨-, haddr, -, hlo, -⟩ | ⟨-, hbelow | habove⟩ := h.home.head
      · replace haddr : s.pool.curr.addr = base := haddr
        replace hlo : tfwPoolHeadOff ≤ s.pool.off := hlo
        omega
      · replace hbelow : s.pool.curr.addr + s.pool.chunkSz ≤ base := hbelow
        rw [tfwPoolHeadOff_eq]
        omega
      · replace habove : base + size ≤ s.pool.curr.addr := habove
        have := h.room.1
        omega

lemma Inv.realloc {ptr : Nat} (h : s.Inv base size) (hv : s.Valid (.realloc ptr oldN newN page)) :
    ∃ s', s.step (.realloc ptr oldN newN page) = some s' ∧ s'.Inv base size := by
  obtain ⟨hissued, hle, hmax, hfree⟩ := hv
  have hsafe := hissued.safe h
  have hold := tfwPoolAlignSz_mono hle hmax
  have hnew := tfwPoolAlignSz_le hmax
  have hofflt : s.pool.off < 2 ^ 32 := (forall_mem_cons.mp h.offs).1
  show ∃ s', (tfwPoolRealloc s.pool ptr oldN newN page).map (s.allocated · newN) = some s' ∧ _
  unfold tfwPoolRealloc at hfree ⊢
  rw [if_neg (by omega)] at hfree ⊢
  dsimp only at hfree ⊢
  split at hfree
  · rename_i hend
    rw [if_pos hend]
    refine ⟨_, rfl, ?_⟩
    obtain ⟨hend, hfits⟩ := hend
    replace hend : ptr + tfwPoolAlignSz oldN = s.pool.curr.addr + s.pool.off := hend
    unfold sizeMax at *
    have hsz : s.pool.off + (tfwPoolAlignSz newN - tfwPoolAlignSz oldN) ≤ s.pool.chunkSz := by
      omega
    apply h.inPlace ptr ⟨rfl, rfl, rfl⟩ hmax (Nat.mod_lt _ (by decide))
    · intro hrest
      obtain ⟨-, hszeq, hlo, hhi⟩ := h.last hrest
      have := h.room.2
      omega
    · obtain hge | hlt := hsafe
      · exact .inl hge
      · obtain ⟨-, haddr, -, hlo, -⟩ | ⟨-, hbelow | habove⟩ := h.home.head
        · replace haddr : s.pool.curr.addr = base := haddr
          replace hlo : tfwPoolHeadOff ≤ s.pool.off := hlo
          omega
        · replace hbelow : s.pool.curr.addr + s.pool.chunkSz ≤ base := hbelow
          rw [tfwPoolHeadOff_eq]
          omega
        · replace habove : base + size ≤ s.pool.curr.addr := habove
          have := h.room.1
          omega
  · rename_i hend
    rw [if_neg hend]
    exact ⟨_, rfl, h.alloc hnew.2 hmax (by omega) (hfree _ rfl)⟩

lemma Inv.free {ptr : Nat} (h : s.Inv base size) (hv : s.Issued ptr n) :
    ∃ s', s.step (.free ptr n) = some s' ∧ s'.Inv base size := by
  have hsafe := hv.safe h
  have hofflt : s.pool.off < 2 ^ 32 := (forall_mem_cons.mp h.offs).1
  have hn : tfwPoolAlignSz n < 2 ^ 31 := by
    obtain ⟨q, hq, -, hn⟩ := hv
    have := (tfwPoolAlignSz_le (Nat.le_trans hn (h.issuedMax q hq))).2
    unfold sizeMax at this
    omega
  have hstay : ∀ off < 2 ^ 32, (s.pool.rest = [] → tfwPoolHeadOff ≤ off ∧ off ≤ size) →
      (s.freed ({ s.pool with off := off }, [])).Inv base size := by
    intro off hlt hoff
    refine ⟨?_, h.order, h.room, h.home.setOff hoff, ?_, h.issuedMax, h.issued⟩
    · show s.obtained.Perm ((s.returned ++ []) ++ s.pool.linked)
      rw [append_nil]
      exact h.pages
    · exact forall_mem_cons.mpr ⟨hlt, (forall_mem_cons.mp h.offs).2⟩
  have hhome : ptr + tfwPoolAlignSz n = s.pool.chunkEnd → s.pool.rest = [] →
      tfwPoolHeadOff ≤ (s.pool.off + (2 ^ 64 - tfwPoolAlignSz n)) % 2 ^ 32 ∧
        (s.pool.off + (2 ^ 64 - tfwPoolAlignSz n)) % 2 ^ 32 ≤ size := by
    intro hend hrest
    obtain ⟨haddr, -, hlo, hhi⟩ := h.last hrest
    replace hend : ptr + tfwPoolAlignSz n = s.pool.curr.addr + s.pool.off := hend
    have := h.room
    rw [tfwPoolHeadOff_eq] at *
    omega
  show ∃ s', (tfwPoolFree s.pool ptr n).map s.freed = some s' ∧ _
  unfold tfwPoolFree
  dsimp only
  split
  · exact ⟨_, rfl, hstay _ hofflt fun hrest => (h.last hrest).2.2⟩
  · rename_i hend
    have hend := not_not.mp hend
    split
    · rename_i hempty
      generalize hcs : s.pool.rest = cs at hhome
      cases cs with
      | nil =>
        have := (hhome hend rfl).1
        rw [hempty] at this
        exact absurd this (by decide)
      | cons next cs =>
        refine ⟨_, rfl, ?_⟩
        have hhl := h.home
        have hoffs := h.offs
        rw [TfwPool.chunks, hcs] at hhl hoffs
        refine ⟨?_, rfl, h.room, hhl.2, (forall_mem_cons.mp hoffs).2, h.issuedMax,
          h.issued⟩
        show s.obtained.Perm ((s.returned ++ [Pages.mk s.pool.curr.addr s.pool.order]) ++
          (next :: cs).map TfwPoolChunk.pages)
        rw [append_assoc, h.order, ← hcs]
        exact h.pages
    · exact ⟨_, rfl, hstay _ (Nat.mod_lt _ (by decide)) (hhome hend)⟩

lemma clean_linked (ptr : Option Nat) :
    (s.freed (tfwPoolClean s.pool ptr)).pool.linked =
      s.pool.curr.pages :: (cleanLoop s.pool.rest ptr).1.map TfwPoolChunk.pages := rfl

lemma Inv.clean_accounted_iff (h : s.Inv base size) (ptr : Option Nat) :
    (s.freed (tfwPoolClean s.pool ptr)).Accounted ↔ s.CleansFromTop (.clean ptr) := by
  constructor
  · intro hacc
    by_contra hc
    have hlt := length_cleanLoop_lt hc
    have hold := h.pages.length_eq
    have hnew := hacc.length_eq
    rw [clean_linked] at hnew
    simp only [freed, tfwPoolClean, TfwPool.linked, length_append, length_cons,
      length_map] at hold hnew
    omega
  · intro hc
    have hpages := h.pages
    unfold Accounted at hpages ⊢
    rw [clean_linked]
    have hlinked : s.pool.linked = s.pool.curr.pages :: s.pool.rest.map TfwPoolChunk.pages := rfl
    rw [hlinked, ← cleanLoop_pages hc] at hpages
    refine hpages.trans ?_
    show (s.returned ++ _).Perm ((s.returned ++ (cleanLoop s.pool.rest ptr).2) ++ _)
    rw [append_assoc]
    exact perm_middle.symm.append_left s.returned

lemma Inv.clean (h : s.Inv base size) (hc : s.CleansFromTop (.clean ptr)) :
    (s.freed (tfwPoolClean s.pool ptr)).Inv base size := by
  refine ⟨(h.clean_accounted_iff ptr).mpr hc, h.order, h.room, ?_, ?_, h.issuedMax, h.issued⟩
  · exact h.home.cleanedBelow ptr
  · have hoffs := forall_mem_cons.mp h.offs
    exact forall_mem_cons.mpr ⟨hoffs.1, fun d hd => hoffs.2 d (mem_cleanLoop hd)⟩

lemma Inv.step (h : s.Inv base size) (call : PoolCall) (hv : s.Valid call ∧ s.CleansFromTop call) :
    ∃ s', s.step call = some s' ∧ s'.Inv base size := by
  cases call with
  | alloc n align page =>
    exact ⟨_, rfl, h.alloc hv.1.1 hv.1.1 (tfwPoolAlignSz_le hv.1.1).1 hv.1.2⟩
  | realloc ptr oldN newN page => exact h.realloc hv.1
  | free ptr n => exact h.free hv.1
  | clean ptr => exact ⟨_, rfl, h.clean hv.2⟩

lemma inv_init (c : Nat) (hn : n ≤ sizeMax) : ∃ size, (init n c).Inv c size := by
  have hsz := tfwPoolAlignSz_le hn
  have hlt : (tfwPoolAlignSz n + tfwPoolHeadOff) % 2 ^ 64 = tfwPoolAlignSz n + 32 := by
    unfold sizeMax at hsz
    rw [tfwPoolHeadOff_eq, Nat.mod_eq_of_lt (by omega)]
  have hord : getOrder (tfwPoolAlignSz n + 32) ≤ 19 := by
    unfold sizeMax at hsz
    unfold getOrder pageSize
    rw [if_neg (by omega)]
    exact fls64_le (by omega)
  have hpow := Nat.pow_le_pow_right (n := 2) (by decide) hord
  have hpos : 1 ≤ 2 ^ getOrder (tfwPoolAlignSz n + 32) := Nat.one_le_two_pow
  refine ⟨pageSize * 2 ^ getOrder (tfwPoolAlignSz n + 32), List.Perm.refl _, rfl, ?_, ?_, ?_, ?_,
    ?_⟩
  · rw [tfwPoolHeadOff_eq]
    unfold pageSize
    omega
  · unfold init tfwPoolNew
    rw [hlt]
    refine ⟨rfl, rfl, Nat.le_refl _, ?_⟩
    show tfwPoolHeadOff ≤ _
    rw [tfwPoolHeadOff_eq]
    unfold pageSize
    omega
  · intro d hd
    rw [mem_singleton.mp hd]
    show tfwPoolHeadOff < 2 ^ 32
    decide
  · nofun
  · nofun

theorem pages_accounted {n c : Nat} {calls : List PoolCall} (hn : n ≤ sizeMax)
    (hg : RunLib.Guarded step (fun s call => s.Valid call ∧ s.CleansFromTop call) (init n c)
      calls) :
    ∃ s, calls.foldlM step (init n c) = some s ∧ s.Accounted ∧ s.obtained.Perm s.destroy ∧
      ∀ ptr, (∀ s', s.step (.clean ptr) = some s' → s'.Accounted) ↔
        s.CleansFromTop (.clean ptr) := by
  obtain ⟨size, hinit⟩ := inv_init c hn
  obtain ⟨s, hrun, hinv⟩ := RunLib.Guarded.invariant (I := Inv c size)
    (fun s call h hv => h.step call hv) hinit hg
  refine ⟨s, hrun, hinv.pages, hinv.pages, fun ptr => ?_⟩
  rw [← hinv.clean_accounted_iff ptr]
  constructor
  · intro hall
    exact hall _ rfl
  · intro hacc s' hs'
    cases hs'
    exact hacc

/-- Three chunks over the first one, the lower two of them cleaned from the top. -/
def cleanedSession : List PoolCall :=
  [.alloc 4000 true none, .alloc 4000 true (some 0x20000), .alloc 100 true (some 0x30000),
    .realloc 0x30010 100 4080 none, .alloc 8000 false (some 0x40000), .free 0x40010 8000,
    .alloc 5000 true (some 0x40000), .clean (some 0x30010)]

theorem pages_accounted_session :
    ∃ s, cleanedSession.foldlM step (init 3000 0x10000) = some s ∧ s.Accounted ∧
      s.obtained.Perm s.destroy ∧ s.returned.length = 3 := by
  obtain ⟨s, hrun, hacc, hdestroy, -⟩ :=
    @pages_accounted 3000 0x10000 cleanedSession (by decide) (by decide +kernel)
  have hret : (cleanedSession.foldlM step (init 3000 0x10000)).map (·.returned.length) =
    some 3 := by
    decide +kernel
  rw [hrun] at hret
  exact ⟨s, hrun, hacc, hdestroy, Option.some.inj hret⟩

/-- The address is in the current chunk, and the chunk below is neither returned
nor linked any more. -/
theorem clean_skips_chunk :
    ∃ s, RunLib.Guarded step Valid (init 0 0x10000)
        [.alloc 4064 true none, .alloc 4000 true (some 0x20000), .alloc 4000 true (some 0x30000),
          .clean (some 0x30010)] ∧
      [.alloc 4064 true none, .alloc 4000 true (some 0x20000), .alloc 4000 true (some 0x30000),
        .clean (some 0x30010)].foldlM step (init 0 0x10000) = some s ∧
      ¬ s.Accounted ∧ ¬ s.obtained.Perm s.destroy := by
  refine ⟨⟨⟨⟨0x30000, 0, 0⟩, [⟨0x10000, 0, 4096⟩], 0, 4016⟩,
    [⟨0x10000, 0⟩, ⟨0x20000, 0⟩, ⟨0x30000, 0⟩], [],
    [(0x10020, 4064), (0x20010, 4000), (0x30010, 4000)]⟩, by decide +kernel, by decide +kernel,
    ?_, ?_⟩
  · intro hacc
    exact absurd hacc.length_eq (by decide)
  · intro hacc
    exact absurd hacc.length_eq (by decide)

/-- The invariant, but for the pages that `tfw_pool_clean` loses -/
def Kept (base size : Nat) (s : PoolState) : Prop :=
  { s with obtained := s.returned ++ s.pool.linked }.Inv base size

lemma Inv.kept {t : PoolState} (h : t.Inv base size) (hp : s.pool = t.pool)
    (hi : s.issued = t.issued) : s.Kept base size :=
  ⟨.refl _, hp ▸ h.order, h.room, hp ▸ h.home, hp ▸ h.offs, hi ▸ h.issuedMax, hi ▸ h.issued⟩

lemma Kept.step (h : s.Kept base size) (call : PoolCall) (hv : s.Valid call) :
    ∃ s', s.step call = some s' ∧ s'.Kept base size := by
  cases call with
  | alloc n align page =>
    exact ⟨_, rfl, (Inv.alloc h hv.1 hv.1 (tfwPoolAlignSz_le hv.1).1 hv.2).kept rfl rfl⟩
  | realloc ptr oldN newN page =>
    obtain ⟨t, ht, hinv⟩ := Inv.realloc h hv
    obtain ⟨r, hr, rfl⟩ := Option.map_eq_some_iff.mp ht
    exact ⟨_, Option.map_eq_some_iff.mpr ⟨r, hr, rfl⟩, hinv.kept rfl rfl⟩
  | free ptr n =>
    obtain ⟨t, ht, hinv⟩ := Inv.free h hv
    obtain ⟨r, hr, rfl⟩ := Option.map_eq_some_iff.mp ht
    exact ⟨_, Option.map_eq_some_iff.mpr ⟨r, hr, rfl⟩, hinv.kept rfl rfl⟩
  | clean ptr =>
    have hoffs := forall_mem_cons.mp h.offs
    refine ⟨_, rfl, .refl _, h.order, h.room, h.home.cleanedBelow ptr, ?_, h.issuedMax, h.issued⟩
    exact forall_mem_cons.mpr ⟨hoffs.1, fun d hd => hoffs.2 d (mem_cleanLoop hd)⟩

/-- Whatever is allocated, freed and cleaned: no call fails, and the chunk in which the pool
itself lives stays the last one, filled at least up to the end of the pool header. -/
theorem header_kept {n c : Nat} {calls : List PoolCall} (hn : n ≤ sizeMax)
    (hg : RunLib.Guarded step Valid (init n c) calls) :
    ∃ s size, calls.foldlM step (init n c) = some s ∧ HomeLast c size s.pool.chunks := by
  obtain ⟨size, hinit⟩ := inv_init c hn
  obtain ⟨s, hrun, hkept⟩ := RunLib.Guarded.invariant (I := Kept c size)
    (fun s call h hv => h.step call hv) (hinit.kept rfl rfl) hg
  exact ⟨s, size, hrun, hkept.home⟩

theorem header_kept_session :
    ∃ s size, cleanedSession.foldlM step (init 3000 0x10000) = some s ∧
      HomeLast 0x10000 size s.pool.chunks :=
  header_kept (by decide) (by decide +kernel)

end PoolState

end Tempesta.Pool
