import Tempesta.Hpack.HeaderField
import Tempesta.Hpack.HuffmanDecode

/-!
The state machine `tfw_hpack_decode`. A header block arrives in parts, each of
which is one call; what is kept between the calls is in the HPACK context of the
connection and in the parsing iterator of the request. Each case of the switch is
a step here, with the variables of the function as the state.

The header parser accumulates the pieces of a value and answers at the last one.
Reading behind the data and shifts by the width of the type are outside the C
semantics.
-/

namespace Tempesta.Hpack

open Http

def hpackLimit : Nat := 2 ^ 20

/-- The states of the decoder. -/
inductive HpackState where
  | ready
  | index
  | name
  | nameLength
  | nameText
  | indexedNameText
  | value
  | valueLength
  | valueText
  | allIndexed
  | window
  deriving DecidableEq, Repr

/-- The flags that are kept beside the state, but for the one that nothing reads. -/
structure HpackFlags where
  add : Bool
  noValue : Bool
  huffmanName : Bool
  huffmanValue : Bool
  deriving DecidableEq, Repr

def HpackFlags.zero : HpackFlags := ⟨false, false, false, false⟩

/-- The part of `TfwHPack` that decoding uses. -/
structure HpackCtx where
  hp : TfwHPack
  huff : HuffmanCtx
  state : HpackState
  flags : HpackFlags
  shift : Nat
  index : Nat

/-- What decoding keeps in a request: the iterator, the string that is being
decoded, the state of the header parser and the value it has seen, and what it
sets in the request. -/
structure HpackReq where
  it : TfwMsgParseIter
  hdr : List UInt8
  name : NameState
  next : Option H2ValueState
  value : List (List UInt8)
  req : H2Req

def TfwMsgParseIter.zero : TfwMsgParseIter := ⟨⟨[]⟩, 0, 0, .h2Method⟩

def HpackReq.init : HpackReq where
  it := .zero
  hdr := []
  name := .hdr
  next := none
  value := []
  req := ⟨fun _ => false, false, .none, 0, .h2Method⟩

/-- The header parser, and what the pools answer when an entry is added. -/
structure HpackEnv where
  parser : H2ParserEnv
  pool : TfwHPackDTbl → TfwMsgParseIter → PoolReply

/-- The call runs into a `BUG()`, reads a byte behind its data, or leaves the C semantics
otherwise. -/
inductive HpackStop where
  | bug
  | overrun
  | undefined
  deriving DecidableEq, Repr

structure HpackRet where
  ret : TRet
  ctx : HpackCtx
  req : HpackReq

/-- The variables of `tfw_hpack_decode`. -/
structure DecodeState where
  ctx : HpackCtx
  req : HpackReq
  r : TRet
  src : List UInt8

abbrev DecodeNext := DecodeState ⊕ Except HpackStop HpackRet

/-- How the decoding of an integer ends: it is complete, interrupted, too large, or
undefined. -/
inductive FlexRes where
  | done (x : Nat) (src : List UInt8)
  | more (x shift : Nat)
  | drop
  | undefined
  deriving DecidableEq, Repr

def getFlexible (x m : Nat) : List UInt8 → FlexRes
  | [] => .more x m
  | c :: src =>
    if 32 ≤ m then .undefined
    else
      let x := x + ((c.toNat % 128) <<< m) % 2 ^ 32
      if hpackLimit < x then .drop
      else if 127 < c.toNat then getFlexible x (m + 7) src
      else .done x src

/-- The loop of `GET_CONTINUE`, which does not add. -/
def getContinueFrom (x m : Nat) : List UInt8 → FlexRes
  | [] => .more x m
  | c :: src =>
    if 32 ≤ m then .undefined
    else
      let x := ((c.toNat % 128) <<< m) % 2 ^ 32 ||| x
      if hpackLimit < x then .drop
      else if 127 < c.toNat then getContinueFrom x (m + 7) src
      else .done x src

def getContinue (x m : Nat) : List UInt8 → FlexRes
  | [] => .undefined
  | c :: src =>
    if 32 ≤ m then .undefined
    else
      let x := x + ((c.toNat % 128) <<< m) % 2 ^ 32
      if hpackLimit < x then .drop
      else if 127 < c.toNat then getContinueFrom x (m + 7) src
      else .done x src

/-- The loops of `GET_FLEXIBLE` and `GET_CONTINUE`, which differ in how a byte is put to the
others. -/
def getLen (f : Nat → Nat → Nat) (x m : Nat) : List UInt8 → FlexRes
  | [] => .more x m
  | c :: src =>
    if 32 ≤ m then .undefined
    else
      let x := f x (((c.toNat % 128) <<< m) % 2 ^ 32)
      if hpackLimit < x then .drop
      else if 127 < c.toNat then getLen f x (m + 7) src
      else .done x src

variable {x m newSize n l mask : Nat} {src : List UInt8} {huffman : Bool} {pool : PoolReply}
  {hp hp₁ hp₂ : TfwHPack} {tbl : TfwHPackDTbl} {it : TfwMsgParseIter} {c : UInt8}

lemma getFlexible_eq : getFlexible x m src = getLen (fun x y => x + y) x m src := by
  induction src generalizing x m with
  | nil => rfl
  | cons c src ih =>
    rw [getFlexible, getLen]
    simp only [ih]

lemma getContinueFrom_eq : getContinueFrom x m src = getLen (fun x y => y ||| x) x m src := by
  induction src generalizing x m with
  | nil => rfl
  | cons c src ih =>
    rw [getContinueFrom, getLen]
    simp only [ih]

namespace DecodeState

/-- `goto out` -/
def out (s : DecodeState) : DecodeNext :=
  .inr (.ok ⟨s.r, s.ctx, s.req⟩)

/-- `goto out` with a return code. -/
def leave (s : DecodeState) (r : TRet) : DecodeNext :=
  out { s with r := r }

/-- The next case of the switch, without looking at the data that is left. -/
def goto (s : DecodeState) (state : HpackState) : DecodeNext :=
  .inl { s with ctx.state := state }

/-- The next case of the switch, if there is data for it. -/
def nextState (s : DecodeState) (state : HpackState) : DecodeNext :=
  if s.src = [] then out { s with ctx.state := state } else s.goto state

/-- The end of an integer that was begun with `GET_FLEXIBLE` or goes on with
`GET_CONTINUE`: `set` stores it, `state` is the one to continue in. -/
def flexible (s : DecodeState) (set : HpackCtx → Nat → HpackCtx) (state : HpackState)
    (x : FlexRes) (k : DecodeState → DecodeNext) : DecodeNext :=
  match x with
  | .done x src => k { s with ctx := set s.ctx x, src := src }
  | .more x m =>
    out { s with ctx := { set s.ctx x with state := state, shift := m }, src := [] }
  | .drop => s.leave .drop
  | .undefined => .inr (.error .undefined)

def setIndex (ctx : HpackCtx) (x : Nat) : HpackCtx := { ctx with index := x }

def setLength (ctx : HpackCtx) (x : Nat) : HpackCtx := { ctx with huff.length := x }

/-- `tfw_hpack_reinit`, and the condition of the loop. -/
def headerDone (s : DecodeState) : DecodeNext :=
  let s := { s with
    ctx.state := .ready, ctx.flags := .zero, ctx.shift := 0, ctx.index := 0
    req.it := .zero, req.hdr := [] }
  if s.src = [] then s.leave .ok else .inl s

/-- `tfw_h2_parse_req_hdr` for a part of the name. -/
def parseHdrName (env : HpackEnv) (req : HpackReq) (data : List UInt8) (fin : Bool) :
    TRet × HpackReq :=
  let seen := { req with it.parsedHdr.chunks :=
    req.it.parsedHdr.chunks ++ [TfwChunk.mk data false] }
  match namePiece env.parser req.name data fin with
  | .ok tag next => (.ok, { seen with it.tag := tag, next := some next, name := .hdr })
  | .postpone s => (.postpone, { seen with name := s })
  | .drop => (.drop, req)

/-- `tfw_h2_parse_req_hdr` for a part of the value. If the name was an index, the
state is that of its tag. -/
def parseHdrValue (env : HpackEnv) (req : HpackReq) (data : List UInt8) (fin : Bool) :
    TRet × HpackReq :=
  let seen := { req with
    it.parsedHdr.chunks := req.it.parsedHdr.chunks ++ [TfwChunk.mk data false]
    value := req.value ++ [data] }
  if !fin then (.postpone, seen)
  else
    match req.next.or (reqNextState req.it.tag) with
    | none => (.drop, req)
    | some next =>
      match parseValue env.parser next req.req seen.value with
      | none => (.drop, req)
      | some r => (.ok, { seen with req := r, next := none, value := [] })

/-- `HPACK_PROCESS_STRING` and `HPACK_DECODE_PROCESS_STRING`: the text of a name or a
value, which the parser gets as it comes or decoded. -/
def processString (s : DecodeState) (huffman : Bool)
    (parse : HpackReq → List UInt8 → Bool → TRet × HpackReq) (k : DecodeState → DecodeNext) :
    DecodeNext :=
  let n := min s.src.length s.ctx.huff.length
  let src := s.src.drop n
  if huffman then
    match tfwHuffmanDecode s.ctx.huff s.req.hdr (s.src.take n) with
    | none => .inr (.error .undefined)
    | some res =>
      let s := { s with src := src, ctx.huff := res.hp, req.hdr := res.out }
      if res.ret ≠ .ok then s.leave res.ret
      else
        let (r, req) := parse s.req s.req.hdr true
        let s := { s with ctx.huff := huffmanInit res.hp.length, req := req, r := r }
        if r ≠ .ok then s.leave .drop else k s
  else
    let length := s.ctx.huff.length - n
    let (r, req) := parse s.req (s.src.take n) (length == 0)
    let s := { s with src := src, ctx.huff.length := length, req := req, r := r }
    if r ≠ .ok then s.out else k s

def literalIndex (s : DecodeState) (mask : Nat) (c : UInt8) : DecodeNext :=
  let index := c.toNat % mask
  if index = mask - 1 then
    s.flexible setIndex .index (getFlexible index 0 s.src) (goto · .indexedNameText)
  else
    let s := { s with ctx.index := index }
    s.nextState (if index ≠ 0 then .indexedNameText else .name)

/-- `HPACK_STATE_READY` -/
def ready (s : DecodeState) (c : UInt8) : DecodeNext :=
  if 128 ≤ c.toNat then
    let s := { s with ctx.flags.noValue := true }
    let index := c.toNat % 128
    if index = 127 then
      s.flexible setIndex .index (getFlexible index 0 s.src) (goto · .allIndexed)
    else if index = 0 then s.leave .drop
    else goto { s with ctx.index := index } .allIndexed
  else if 64 ≤ c.toNat then literalIndex { s with ctx.flags.add := true } 64 c
  else if 32 ≤ c.toNat then
    let index := c.toNat % 32
    if index = 31 then
      s.flexible setIndex .window (getFlexible index 0 s.src) setWindow
    else setWindow { s with ctx.index := index }
  else literalIndex s 16 c
where
  /-- From the label `set_window` on. -/
  setWindow (s : DecodeState) : DecodeNext :=
    let s := { s with ctx.state := .window }
    match tfwHpackSetLength s.ctx.hp s.ctx.index with
    | none => .inr (.error .undefined)
    | some (.error _) => s.leave .drop
    | some (.ok hp) => headerDone { s with ctx.hp := hp }

/-- The length of a name is known: `BUFFER_NAME_OPEN`. -/
def nameOpen (s : DecodeState) : DecodeNext :=
  if s.ctx.flags.huffmanName ∧ s.ctx.huff.length = 0 then .inr (.error .bug)
  else nextState { s with req.hdr := [] } .nameText

/-- `HPACK_STATE_NAME` -/
def name (s : DecodeState) (c : UInt8) : DecodeNext :=
  let s := { s with ctx.flags.huffmanName := s.ctx.flags.huffmanName || 128 ≤ c.toNat }
  let length := c.toNat % 128
  if length = 127 then s.flexible setLength .nameLength (getFlexible length 0 s.src) nameOpen
  else if length = 0 then s.leave .drop
  else nameOpen { s with ctx := setLength s.ctx length }

/-- `HPACK_STATE_NAME_TEXT` -/
def nameText (env : HpackEnv) (s : DecodeState) : DecodeNext :=
  s.processString s.ctx.flags.huffmanName (parseHdrName env) (nextState · .value)

def tfwHpackHdrNameSet (req : HpackReq) (entry : TfwHPackEntry) : Option HpackReq :=
  if entry.nameNum = 0 ∨ entry.hdr.chunks.length < entry.nameNum then none
  else
    some { req with
      it.parsedHdr := ⟨entry.hdr.chunks.take entry.nameNum⟩
      it.tag := entry.tag }

/-- `HPACK_STATE_INDEXED_NAME_TEXT` -/
def indexedNameText (s : DecodeState) : DecodeNext :=
  match tfwHpackFindIndex s.ctx.hp.decTbl s.ctx.index with
  | none => s.leave .drop
  | some none => .inr (.error .undefined)
  | some (some entry) =>
    match tfwHpackHdrNameSet s.req entry with
    | none => s.leave .drop
    | some req => goto { s with req := req } .value

/-- The length of a value is known: `BUFFER_VAL_OPEN`. -/
def valueOpen (s : DecodeState) : DecodeNext :=
  let chunks := s.req.it.parsedHdr.chunks.length
  let s := { s with
    req.it.nmLen := s.req.it.parsedHdr.len
    req.it.nmNum := if chunks ≠ 0 then chunks else 1 }
  if s.ctx.flags.huffmanValue ∧ s.ctx.huff.length = 0 then .inr (.error .bug)
  else nextState { s with req.hdr := [] } .valueText

/-- `HPACK_STATE_VALUE` -/
def value (s : DecodeState) (c : UInt8) : DecodeNext :=
  let s := { s with ctx.flags.huffmanValue := s.ctx.flags.huffmanValue || 128 ≤ c.toNat }
  let length := c.toNat % 128
  if length = 127 then s.flexible setLength .valueLength (getFlexible length 0 s.src) valueOpen
  else valueOpen { s with ctx := setLength s.ctx length }

/-- The header is complete: it is added to the table if it shall be. -/
def valueDone (env : HpackEnv) (s : DecodeState) : DecodeNext :=
  let added :=
    if s.ctx.flags.add then
      tfwHpackAddIndex s.ctx.hp.decTbl s.req.it (env.pool s.ctx.hp.decTbl s.req.it)
    else some (.ok s.ctx.hp.decTbl)
  match added with
  | none => .inr (.error .undefined)
  | some (.error _) => s.leave .drop
  | some (.ok tbl) =>
    let s := { s with ctx.hp.decTbl := tbl }
    match tfwHttpMsgHdrClose s.req.req with
    | none => s.leave .drop
    | some req => headerDone { s with req.req := req }

/-- `HPACK_STATE_VALUE_TEXT` -/
def valueText (env : HpackEnv) (s : DecodeState) : DecodeNext :=
  if s.ctx.huff.length = 0 then s.leave .drop
  else s.processString s.ctx.flags.huffmanValue (parseHdrValue env) (valueDone env)

/-- `HPACK_STATE_ALL_INDEXED` -/
def allIndexed (s : DecodeState) : DecodeNext :=
  match tfwHpackFindIndex s.ctx.hp.decTbl s.ctx.index with
  | none => s.leave .drop
  | some none => .inr (.error .undefined)
  | some (some entry) =>
    match (tfwHpackHdrSet s.ctx.index s.req.req entry).bind tfwHttpMsgHdrClose with
    | none => s.leave .drop
    | some req => headerDone { s with req.req := req }

def readByte (s : DecodeState) (k : DecodeState → UInt8 → DecodeNext) : DecodeNext :=
  match s.src with
  | [] => .inr (.error .overrun)
  | c :: src => k { s with src := src } c

/-- One case of the switch in `tfw_hpack_decode`. -/
def step (env : HpackEnv) (s : DecodeState) : DecodeNext :=
  match s.ctx.state with
  | .ready => s.readByte ready
  | .name => s.readByte name
  | .nameText => s.nameText env
  | .indexedNameText => s.indexedNameText
  | .value => s.readByte value
  | .valueText => s.valueText env
  | .allIndexed => s.allIndexed
  | .index =>
    s.flexible setIndex .index (getContinue s.ctx.index s.ctx.shift s.src) fun s =>
      if s.ctx.flags.noValue then s.goto .allIndexed else s.nextState .indexedNameText
  | .window =>
    s.flexible setIndex .window (getContinue s.ctx.index s.ctx.shift s.src) ready.setWindow
  | .nameLength =>
    s.flexible setLength .nameLength (getContinue s.ctx.huff.length s.ctx.shift s.src) nameOpen
  | .valueLength =>
    s.flexible setLength .valueLength (getContinue s.ctx.huff.length s.ctx.shift s.src) valueOpen

end DecodeState

/-- `tfw_hpack_decode`: of two cases in a row at least one takes a byte. -/
def tfwHpackDecode (env : HpackEnv) (ctx : HpackCtx) (req : HpackReq) (src : List UInt8) :
    Except HpackStop HpackRet :=
  (IterLib.iterate (DecodeState.step env) (2 * (src.length + 1)) ⟨ctx, req, .postpone, src⟩).getD
    (.error .undefined)

/-- The decoder's context in `tfw_hpack_init`. -/
def hpackCtxInit (htblSz : UInt32) : HpackCtx where
  hp := tfwHpackInit htblSz
  huff := huffmanInit 0
  state := .ready
  flags := .zero
  shift := 0
  index := 0

def laxHpackEnv : HpackEnv := ⟨laxEnv, fun _ _ => ⟨true, true, fun _ => none⟩⟩

section Table

/-- The table of the decoder changes by operations on it only. -/
def TableRun (hp hp' : TfwHPack) : Prop :=
  ∃ ops : List DTblOp, ops.foldlM dtblStep hp = some hp'

lemma TableRun.refl (hp : TfwHPack) : TableRun hp hp := ⟨[], rfl⟩

lemma TableRun.step (h : TableRun hp hp₁) (op : DTblOp) (hs : dtblStep hp₁ op = some hp₂) :
    TableRun hp hp₂ := by
  obtain ⟨ops, hops⟩ := h
  refine ⟨ops ++ [op], ?_⟩
  rw [List.foldlM_append, hops]
  show [op].foldlM dtblStep hp₁ = some hp₂
  rw [List.foldlM_cons, hs]
  rfl

lemma TableRun.setLength (h : TableRun hp hp₁)
    (hs : tfwHpackSetLength hp₁ newSize = some (.ok hp₂)) : TableRun hp hp₂ := by
  refine h.step (.setLength newSize) ?_
  simp only [dtblStep, hs, Option.bind_eq_bind, Option.bind_some]

lemma TableRun.addIndex (h : TableRun hp hp₁)
    (hs : tfwHpackAddIndex hp₁.decTbl it pool = some (.ok tbl)) :
    TableRun hp { hp₁ with decTbl := tbl } := by
  refine h.step (.addIndex it pool) ?_
  simp only [dtblStep, hs, Option.bind_eq_bind, Option.bind_some]

/-- An integer that is complete has taken data, of which there were `n` bytes. -/
def FlexRes.Below (n : Nat) : FlexRes → Prop
  | .done _ src => src.length < n
  | _ => True

variable {x : FlexRes}

lemma FlexRes.Below.succ (h : x.Below n) : x.Below (n + 1) := by
  cases x with
  | done y src => exact Nat.lt_succ_of_lt h
  | _ => exact trivial

lemma getLen_below (f : Nat → Nat → Nat) (x m : Nat) (src : List UInt8) :
    (getLen f x m src).Below src.length := by
  induction src generalizing x m with
  | nil => exact trivial
  | cons c src ih =>
    rw [getLen]
    simp only
    split_ifs
    · exact trivial
    · exact trivial
    · exact (ih _ _).succ
    · exact Nat.lt_succ_self _

lemma getFlexible_below (x m : Nat) (src : List UInt8) :
    (getFlexible x m src).Below src.length := by
  rw [getFlexible_eq]
  exact getLen_below _ x m src

lemma getContinue_below (x m : Nat) (src : List UInt8) :
    (getContinue x m src).Below src.length := by
  cases src with
  | nil => exact trivial
  | cons c src =>
    rw [getContinue]
    simp only
    split_ifs
    · exact trivial
    · exact trivial
    · rw [getContinueFrom_eq]
      exact (getLen_below _ _ _ _).succ
    · exact Nat.lt_succ_self _

namespace DecodeState

def rank : HpackState → Nat
  | .nameText | .valueText | .allIndexed | .indexedNameText => 1
  | _ => 0

def measure (s : DecodeState) : Nat := 2 * s.src.length + rank s.ctx.state

/-- What is left to do stays below `n`, and the table is one that operations lead to. -/
def Within (hp : TfwHPack) (n : Nat) : DecodeNext → Prop
  | .inl s => s.measure < n ∧ TableRun hp s.ctx.hp
  | .inr (.ok r) => TableRun hp r.ctx.hp
  | .inr (.error _) => True

variable {s : DecodeState} {state : HpackState}

lemma rank_le_one (state : HpackState) : rank state ≤ 1 := by
  cases state <;> decide

lemma Within.goto (h : TableRun hp s.ctx.hp) (hlt : 2 * s.src.length + rank state < n) :
    Within hp n (s.goto state) := ⟨hlt, h⟩

lemma Within.nextState (h : TableRun hp s.ctx.hp) (hlt : 2 * s.src.length + rank state < n) :
    Within hp n (s.nextState state) := by
  unfold DecodeState.nextState
  split_ifs
  · exact h
  · exact .goto h hlt

lemma Within.headerDone (h : TableRun hp s.ctx.hp) (hlt : 2 * s.src.length < n) :
    Within hp n s.headerDone := by
  unfold DecodeState.headerDone
  simp only
  split_ifs
  · exact h
  · exact ⟨hlt, h⟩

variable {set : HpackCtx → Nat → HpackCtx} {k : DecodeState → DecodeNext}

lemma Within.flexible (h : TableRun hp s.ctx.hp) (hset : ∀ c x, (set c x).hp = c.hp)
    (hx : x.Below l) (hk : ∀ s', s'.src.length < l → TableRun hp s'.ctx.hp → Within hp n (k s')) :
    Within hp n (s.flexible set state x k) := by
  have htable : ∀ y, TableRun hp (set s.ctx y).hp := fun y => hset s.ctx y ▸ h
  cases x with
  | done y src => exact hk _ hx (htable y)
  | more y m => exact htable y
  | drop => exact h
  | undefined => exact trivial

lemma setIndex_hp (c : HpackCtx) (x : Nat) : (setIndex c x).hp = c.hp := rfl

lemma setLength_hp (c : HpackCtx) (x : Nat) : (setLength c x).hp = c.hp := rfl

variable {parse : HpackReq → List UInt8 → Bool → TRet × HpackReq}

lemma Within.processString (h : TableRun hp s.ctx.hp)
    (hk : ∀ s', s'.src.length ≤ s.src.length → TableRun hp s'.ctx.hp → Within hp n (k s')) :
    Within hp n (s.processString huffman parse k) := by
  have hlen : ∀ m, (s.src.drop m).length ≤ s.src.length := by
    intro m
    rw [List.length_drop]
    exact Nat.sub_le _ _
  unfold DecodeState.processString
  simp only
  split_ifs
  · split
    · exact trivial
    · split_ifs
      · exact h
      · exact h
      · exact hk _ (hlen _) h
  · exact h
  · exact hk _ (hlen _) h

lemma Within.literalIndex (h : TableRun hp s.ctx.hp) (hlt : 2 * s.src.length + 1 < n) :
    Within hp n (s.literalIndex mask c) := by
  unfold DecodeState.literalIndex
  simp only
  split_ifs
  · refine .flexible h setIndex_hp (getFlexible_below _ _ _) fun s' hl' h' => .goto h' ?_
    have := rank_le_one .indexedNameText
    omega
  · exact .nextState h hlt
  · exact .nextState h (Nat.lt_of_succ_lt hlt)

lemma Within.setWindow (h : TableRun hp s.ctx.hp) (hlt : 2 * s.src.length < n) :
    Within hp n (ready.setWindow s) := by
  unfold ready.setWindow
  simp only
  cases hs : tfwHpackSetLength s.ctx.hp s.ctx.index with
  | none => exact trivial
  | some x =>
    cases x with
    | error e => exact h
    | ok hp' => exact .headerDone (h.setLength hs) hlt

lemma Within.ready (h : TableRun hp s.ctx.hp) (hlt : 2 * s.src.length + 1 < n) :
    Within hp n (s.ready c) := by
  unfold DecodeState.ready
  simp only
  split_ifs
  · refine .flexible h setIndex_hp (getFlexible_below _ _ _) fun s' hl' h' => .goto h' ?_
    have := rank_le_one .allIndexed
    omega
  · exact h
  · exact .goto h hlt
  · exact .literalIndex h hlt
  · exact .flexible h setIndex_hp (getFlexible_below _ _ _)
      fun s' hl' h' => .setWindow h' (by omega)
  · exact .setWindow h (Nat.lt_of_succ_lt hlt)
  · exact .literalIndex h hlt

lemma Within.nameOpen (h : TableRun hp s.ctx.hp) (hlt : 2 * s.src.length + 1 < n) :
    Within hp n s.nameOpen := by
  unfold DecodeState.nameOpen
  split_ifs
  · exact trivial
  · exact .nextState h hlt

lemma Within.name (h : TableRun hp s.ctx.hp) (hlt : 2 * s.src.length + 1 < n) :
    Within hp n (s.name c) := by
  unfold DecodeState.name
  simp only
  split_ifs
  · exact .flexible h setLength_hp (getFlexible_below _ _ _)
      fun s' hl' h' => .nameOpen h' (by omega)
  · exact h
  · exact .nameOpen h hlt

lemma Within.valueOpen (h : TableRun hp s.ctx.hp) (hlt : 2 * s.src.length + 1 < n) :
    Within hp n s.valueOpen := by
  unfold DecodeState.valueOpen
  by_cases hbug : s.ctx.flags.huffmanValue = true ∧ s.ctx.huff.length = 0
  · rw [if_pos hbug]
    exact trivial
  · rw [if_neg hbug]
    exact .nextState h hlt

lemma Within.value (h : TableRun hp s.ctx.hp) (hlt : 2 * s.src.length + 1 < n) :
    Within hp n (s.value c) := by
  unfold DecodeState.value
  simp only
  split_ifs
  · exact .flexible h setLength_hp (getFlexible_below _ _ _)
      fun s' hl' h' => .valueOpen h' (by omega)
  · exact .valueOpen h hlt

lemma Within.indexedNameText (h : TableRun hp s.ctx.hp) (hlt : 2 * s.src.length < n) :
    Within hp n s.indexedNameText := by
  unfold DecodeState.indexedNameText
  split
  · exact h
  · exact trivial
  · split
    · exact h
    · exact .goto h hlt

lemma Within.allIndexed (h : TableRun hp s.ctx.hp) (hlt : 2 * s.src.length < n) :
    Within hp n s.allIndexed := by
  unfold DecodeState.allIndexed
  split
  · exact h
  · exact trivial
  · split
    · exact h
    · exact .headerDone h hlt

lemma Within.valueDone (env : HpackEnv) (h : TableRun hp s.ctx.hp) (hlt : 2 * s.src.length < n) :
    Within hp n (s.valueDone env) := by
  unfold DecodeState.valueDone
  generalize hadd : (if s.ctx.flags.add = true then _ else _) = added
  cases added with
  | none => exact trivial
  | some x =>
    cases x with
    | error e => exact h
    | ok tbl =>
      have htbl : TableRun hp { s.ctx.hp with decTbl := tbl } := by
        split_ifs at hadd
        · exact h.addIndex hadd
        · cases hadd
          exact h
      simp only
      split
      · exact htbl
      · exact .headerDone htbl hlt

variable {k : DecodeState → UInt8 → DecodeNext}

lemma Within.readByte (h : TableRun hp s.ctx.hp)
    (hk : ∀ s' c, s'.src.length < s.src.length → TableRun hp s'.ctx.hp → Within hp n (k s' c)) :
    Within hp n (s.readByte k) := by
  unfold DecodeState.readByte
  cases hsrc : s.src with
  | nil => exact trivial
  | cons c src => exact hk _ c (hsrc ▸ Nat.lt_succ_self _) h

lemma step_within (env : HpackEnv) (h : TableRun hp s.ctx.hp) :
    Within hp s.measure (s.step env) := by
  have hm : s.measure = 2 * s.src.length + rank s.ctx.state := rfl
  rw [hm]
  unfold step
  cases hst : s.ctx.state with
  | ready => exact .readByte h fun s' c hl' h' => .ready h' (by omega)
  | name => exact .readByte h fun s' c hl' h' => .name h' (by omega)
  | value => exact .readByte h fun s' c hl' h' => .value h' (by omega)
  | nameText =>
    refine .processString h fun s' hl' h' => .nextState h' ?_
    simp only [rank]
    omega
  | valueText =>
    simp only [valueText, rank]
    split_ifs
    · exact h
    · exact .processString h fun s' hl' h' => .valueDone env h' (by omega)
  | indexedNameText => exact .indexedNameText h (Nat.lt_succ_self _)
  | allIndexed => exact .allIndexed h (Nat.lt_succ_self _)
  | index =>
    refine .flexible h setIndex_hp (getContinue_below _ _ _) fun s' hl' h' => ?_
    have hrank := rank_le_one
    split_ifs
    · have := hrank .allIndexed
      exact .goto h' (by omega)
    · have := hrank .indexedNameText
      exact .nextState h' (by omega)
  | window =>
    exact .flexible h setIndex_hp (getContinue_below _ _ _)
      fun s' hl' h' => .setWindow h' (by omega)
  | nameLength =>
    exact .flexible h setLength_hp (getContinue_below _ _ _)
      fun s' hl' h' => .nameOpen h' (by omega)
  | valueLength =>
    exact .flexible h setLength_hp (getContinue_below _ _ _)
      fun s' hl' h' => .valueOpen h' (by omega)

end DecodeState

/-- The loop of `tfw_hpack_decode` ends. -/
theorem tfwHpackDecode_ends (env : HpackEnv) (ctx : HpackCtx) (req : HpackReq) (src : List UInt8) :
    IterLib.Ends (DecodeState.step env) ⟨ctx, req, .postpone, src⟩
      (tfwHpackDecode env ctx req src) := by
  have hstep : ∀ s s', True → DecodeState.step env s = .inl s' → True ∧ s'.measure < s.measure := by
    intro s s' _ hs
    have hw := DecodeState.step_within (s := s) env (.refl _)
    rw [hs] at hw
    exact ⟨trivial, hw.1⟩
  have hrank := DecodeState.rank_le_one ctx.state
  obtain ⟨x, hx, hends⟩ := IterLib.iterate_ends (s := ⟨ctx, req, .postpone, src⟩) hstep trivial
    (show 2 * src.length + DecodeState.rank ctx.state < 2 * (src.length + 1) by omega)
  unfold tfwHpackDecode
  rw [hx]
  exact hends

end Table

end Tempesta.Hpack
