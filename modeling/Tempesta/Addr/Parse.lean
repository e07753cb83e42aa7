import Tempesta.Ctype
import Tempesta.Lib.Scan

/-!
Reading an address with an optional port from text. A chunked string is read byte
by byte; only `::` looks one byte ahead, into the next chunk where it has to.
-/

namespace Tempesta.Addr

open ScanLib Ctype

/-- The address in groups of 16 bits and the port, both as numbers: `ntohs` of what
the socket address holds. -/
structure TfwAddr where
  groups : Vector UInt16 8
  port : UInt16
  deriving DecidableEq, Repr

/-- `TFW_ADDR_STR_DEF_PORT` -/
def defPort : Nat := 80

/-- `*p - '0'` -/
def digit (c : UInt8) : Nat := c.toNat - 0x30

/-- `XD(tolower(*p))` -/
def xd (c : UInt8) : Nat :=
  let x := if 0x41 ≤ c ∧ c ≤ 0x5a then c.toNat + 0x20 else c.toNat
  if 0x61 ≤ x then 10 + x - 0x61 else x - 0x30

/-- The groups of `s`, zero where there are none. -/
def groupsOf (s : List Nat) : Vector UInt16 8 := .ofFn fun j => UInt16.ofNat (s.getD j 0)

/-- The locals of `tfw_addr_pton_v4`; `octet` is `none` for -1, `a` are the octets
stored so far. -/
structure V4 where
  octet : Option Nat := none
  i : Nat := 0
  port : Bool := false
  a : List Nat := []
  deriving DecidableEq, Repr

/-- One byte of `tfw_addr_pton_v4`; `-EINVAL` on the right. -/
def V4.step (s : V4) (c : UInt8) : V4 ⊕ Unit :=
  if isDigit c then
    let octet := s.octet.elim (digit c) (· * 10 + digit c)
    if (s.port = false ∧ 255 < octet) ∨ 0xffff < octet then .inr ()
    else .inl { s with octet := some octet }
  else
    match s.octet with
    | some o =>
      if (c = 0x2e ∧ s.i < 4) ∨ (c = 0x3a ∧ s.i = 3) then
        .inl { octet := none, i := s.i + 1, port := c == 0x3a, a := s.a ++ [o] }
      else .inr ()
    | none => .inr ()

def v4Mapped (a : List Nat) : Vector UInt16 8 :=
  groupsOf [0, 0, 0, 0, 0, 0xffff, a.getD 0 0 * 256 + a.getD 1 0, a.getD 2 0 * 256 + a.getD 3 0]

/-- What `tfw_addr_pton_v4` stores at the end of the text. -/
def V4.finish (s : V4) : Option TfwAddr :=
  match s.octet with
  | none => none
  | some o =>
    if s.i = 3 then some ⟨v4Mapped (s.a ++ [o]), UInt16.ofNat defPort⟩
    else if s.i = 4 then some ⟨v4Mapped s.a, UInt16.ofNat o⟩
    else none

def tfwAddrPtonV4 (s : List (List UInt8)) : Option TfwAddr :=
  match feed (scan V4.step) {} s with
  | .inl st => st.finish
  | .inr () => none

variable {text data rest : List UInt8} {c : UInt8}

section v6

/-- `port`: -1, 0 behind `[`, 1 behind `]`. -/
inductive Port where
  | unset
  | opened
  | closed
  deriving DecidableEq, Repr

/-- The locals of `tfw_addr_pton_v6`; `none` stands for -1. -/
structure V6 where
  words : List (Option Nat) := List.replicate 9 none
  hole : Option Nat := none
  i : Nat := 0
  port : Port := .unset
  ipv4Mapped : Bool := false
  deriving DecidableEq, Repr

/-- `words[i]` -/
def V6.word (s : V6) (i : Nat) : Option Nat := (s.words[i]?).join

def V6.full (s : V6) : Bool := 7 < s.i && !(s.i == 8 && s.port == .closed)

/-- A `:` behind the word `i`. -/
def V6.next (s : V6) (i : Nat) : V6 := { s with i := if s.port = .closed then 8 else i + 1 }

/-- A `::`, with the current word, or the next one, as the hole. -/
def V6.gap (s : V6) : V6 :=
  let i := if (s.word s.i).isSome then s.i + 1 else s.i
  { s with hole := some i }.next i

/-- The first decimal octet, read as hexadecimal so far. -/
def decimalOf (w : Nat) : Nat :=
  (w &&& 0xf000) / 0x1000 * 1000 + (w &&& 0x0f00) / 0x100 * 100 + (w &&& 0x00f0) / 0x10 * 10
    + (w &&& 0x000f)

/-- A `.`; the first one makes the address a mapped one. -/
def V6.dot (s : V6) : Option V6 :=
  if s.ipv4Mapped then some { s with i := s.i + 1 }
  else
    match s.word 2 with
    | none => none
    | some w =>
      if s.word 0 ≠ none ∨ s.word 1 ≠ some 0xffff ∨ s.i + 1 ≠ 3 ∨ s.hole ≠ some 0 then none
      else if 255 < decimalOf w then none
      else
        some { s with
          words := ((s.words.set 0 (some (decimalOf w))).set 1 none).set 2 none
          i := 1
          ipv4Mapped := true }

def V6.xdigit (s : V6) (c : UInt8) : Option V6 :=
  let w := (s.word s.i).getD 0
  if s.ipv4Mapped ∨ s.port = .closed then
    if isDigit c = false then none
    else
      let w := w * 10 + digit c
      if s.port ≠ .opened then
        if 0xffff < w then none else some { s with words := s.words.set s.i (some w) }
      else if s.ipv4Mapped ∧ 255 < w then none
      else some { s with words := s.words.set s.i (some w) }
  else
    let w := w * 16 + xd c
    if 0xffff < w then none else some { s with words := s.words.set s.i (some w) }

/-- A byte that is no `:`. -/
def V6.char (s : V6) (c : UInt8) : Option V6 :=
  if c = 0x5b then some { s with port := .opened }
  else if c = 0x2e then s.dot
  else if isXdigit c then s.xdigit c
  else if c = 0x5d then some { s with port := .closed }
  else none

/-- A single `:`. -/
def V6.colon (s : V6) : Option V6 :=
  if (s.word s.i).isSome then some (s.next s.i) else none

/-- The bytes of one chunk, `next` being the first one of the chunk behind it. Returns
also whether that one was read as the second half of a `::`. -/
def v6Chunk (next : Option UInt8) : V6 → List UInt8 → Option (V6 × Bool)
  | s, [] => some (s, false)
  | s, c :: data =>
    if s.full then none
    else if c = 0x3a then
      match data with
      | [] => if next = some 0x3a then some (s.gap, true) else s.colon.map (·, false)
      | d :: rest =>
        if d = 0x3a then v6Chunk next s.gap rest
        else s.colon.bind (v6Chunk next · (d :: rest))
    else (s.char c).bind (v6Chunk next · data)

/-- All chunks; the first byte of the first one was read before if `skip`. -/
def v6Chunks : Bool → V6 → List (List UInt8) → Option V6
  | _, s, [] => some s
  | skip, s, c :: cs =>
    (v6Chunk (cs.head?.bind List.head?) s (if skip then c.tail else c)).bind fun r =>
      v6Chunks r.2 r.1 cs

def v6Run (s : V6) (text : List UInt8) : Option V6 := (v6Chunk none s text).map Prod.fst

variable {s : V6}

@[simp]
lemma v6Run_nil : v6Run s [] = some s := rfl

lemma v6Run_full (h : s.full = true) : v6Run s (c :: text) = none := by
  rw [v6Run, v6Chunk.eq_def]
  exact congrArg (Option.map Prod.fst) (if_pos h)

lemma v6Run_char (h : s.full = false) (hc : c ≠ 0x3a) :
    v6Run s (c :: text) = (s.char c).bind (v6Run · text) := by
  rw [v6Run, v6Chunk.eq_def]
  dsimp only
  rw [if_neg (by rw [h]; nofun), if_neg hc, Option.map_bind]
  rfl

lemma v6Run_gap (h : s.full = false) :
    v6Run s (0x3a :: 0x3a :: text) = v6Run s.gap text := by
  rw [v6Run, v6Chunk, if_neg (by rw [h]; nofun), if_pos rfl]
  exact congrArg (Option.map Prod.fst) (if_pos rfl)

lemma v6Run_colon (h : s.full = false) (ht : text.head? ≠ some 0x3a) :
    v6Run s (0x3a :: text) = s.colon.bind (v6Run · text) := by
  rw [v6Run, v6Chunk.eq_def]
  dsimp only
  rw [if_neg (by rw [h]; nofun), if_pos rfl]
  cases text with
  | nil =>
    cases s.colon with
    | none => rfl
    | some s' => rfl
  | cons d text =>
    have hd : d ≠ 0x3a := fun e => ht (congrArg some e)
    change Option.map Prod.fst (if d = 0x3a then _ else _) = _
    rw [if_neg hd, Option.map_bind]
    rfl

/-- A chunk is read as a part of the text, its last `:` together with what follows. -/
theorem v6Run_append :
    v6Run s (data ++ rest) =
      (v6Chunk rest.head? s data).bind fun r => v6Run r.1 (if r.2 then rest.tail else rest) := by
  fun_induction v6Chunk rest.head? s data with
  | case1 s => rfl
  | case2 s c data h => exact v6Run_full h
  | case3 s h hf =>
    cases rest with
    | nil => cases hf
    | cons d rest =>
      cases hf
      exact v6Run_gap (Bool.eq_false_iff.mpr h)
  | case4 s h hf =>
    rw [List.singleton_append, v6Run_colon (Bool.eq_false_iff.mpr h) hf]
    cases s.colon with
    | none => rfl
    | some s' => rfl
  | case5 s h rest' ih =>
    rw [List.cons_append, List.cons_append, v6Run_gap (Bool.eq_false_iff.mpr h), ih]
  | case6 s h d rest' hd ih =>
    have hnext : (d :: rest' ++ rest).head? ≠ some 0x3a := fun e => hd (Option.some.inj e)
    rw [List.cons_append, v6Run_colon (Bool.eq_false_iff.mpr h) hnext]
    cases hs : s.colon with
    | none => rfl
    | some s' => exact ih s'
  | case7 s c data h hc ih =>
    rw [List.cons_append, v6Run_char (Bool.eq_false_iff.mpr h) hc]
    cases hs : s.char c with
    | none => rfl
    | some s' => exact ih s'

lemma v6Chunks_eq (skip : Bool) (s : V6) (cs : List (List UInt8)) (hcs : ∀ c ∈ cs, c ≠ []) :
    v6Chunks skip s cs = v6Run s (if skip then cs.flatten.tail else cs.flatten) := by
  induction cs generalizing skip s with
  | nil =>
    cases skip with
    | false => rfl
    | true => rfl
  | cons c cs ih =>
    obtain ⟨hc, hcs⟩ := List.forall_mem_cons.mp hcs
    have hnext : cs.head?.bind List.head? = cs.flatten.head? := by
      cases cs with
      | nil => rfl
      | cons d cs =>
        obtain ⟨hd, -⟩ := List.forall_mem_cons.mp hcs
        cases d with
        | nil => exact absurd rfl hd
        | cons b d => rfl
    have hskip : (if skip then (c :: cs).flatten.tail else (c :: cs).flatten) =
        (if skip then c.tail else c) ++ cs.flatten := by
      cases skip with
      | false => exact List.flatten_cons
      | true =>
        cases c with
        | nil => exact absurd rfl hc
        | cons b c => rfl
    rw [hskip, v6Run_append, v6Chunks, hnext]
    exact congrArg (Option.bind _) (funext fun r => ih r.2 r.1 hcs)

/-- The loop that copies the words, the last one first. Words `i..` were looked at and
the groups `a..` are those of `groups`. -/
def copyWords (words : List (Option Nat)) (hole : Option Nat) :
    Nat → Nat → Nat → List Nat → List Nat
  | n + 1, i + 1, a + 1, groups =>
    match (words[i]?).join with
    | none =>
      if hole.all (· < i) then copyWords words hole n i (a + 1) groups
      else if a = i ∧ i ≠ 0 then copyWords words hole n i a (0 :: groups)
      else copyWords words hole n (i + 1) a (0 :: groups)
    | some w => copyWords words hole n i a (w :: groups)
  | _, _, a, groups => List.replicate a 0 ++ groups

/-- `words[i] << (3 - i) * 8` as a 32-bit number. -/
def v4Word (s : V6) (i : Nat) : Nat :=
  match s.word i with
  | none => 2 ^ 32 - 2 ^ ((3 - i) * 8)
  | some w => w * 2 ^ ((3 - i) * 8) % 2 ^ 32

/-- The octets of a number in the order they have in memory. -/
def octetsOf (v : Nat) : List Nat :=
  [v % 256, v / 2 ^ 8 % 256, v / 2 ^ 16 % 256, v / 2 ^ 24 % 256]

/-- What `tfw_addr_pton_v6` stores at the end of the text. -/
def V6.finish (s : V6) : Option TfwAddr :=
  if s.port = .opened ∨ (s.port ≠ .unset ∧ (s.word 8).getD 0 = 0)
    ∨ (s.ipv4Mapped ∧ s.hole = none)
    ∨ (s.ipv4Mapped ∧ s.port = .unset ∧ s.i ≠ 3)
    ∨ (s.port = .closed ∧ s.i ≠ 8)
    ∨ (s.port = .unset ∧ s.i < 7 ∧ s.hole = none) then none
  else
    some {
      groups :=
        if s.ipv4Mapped then
          v4Mapped (octetsOf (v4Word s 0 ||| v4Word s 1 ||| v4Word s 2 ||| v4Word s 3))
        else groupsOf (copyWords s.words s.hole 16 8 8 [])
      port := UInt16.ofNat (if s.port = .unset then defPort else (s.word 8).getD 0) }

def tfwAddrPtonV6 (s : List (List UInt8)) : Option TfwAddr :=
  (v6Chunks false {} s).bind V6.finish

end v6

inductive Mode where
  | v4
  | v6
  deriving DecidableEq, Repr

/-- The type of the address, from the bytes of the text. -/
def modeOf (text : List UInt8) : Option Mode :=
  if text.head?.any (fun c => c == 0x5b || isAlpha c) then some .v6
  else
    match (text.dropWhile isDigit).head? with
    | some c => if c = 0x3a then some .v6 else if c = 0x2e then some .v4 else none
    | none => none

/-- `tfw_addr_pton` on the chunks of a string. -/
def tfwAddrPton (str : List (List UInt8)) : Option TfwAddr :=
  match modeOf str.flatten with
  | some .v4 => tfwAddrPtonV4 str
  | some .v6 => tfwAddrPtonV6 str
  | none => none

end Tempesta.Addr
