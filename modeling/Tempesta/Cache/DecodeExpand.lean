import Tempesta.Lib.Varint
import Tempesta.Hpack.Decode
import Tempesta.Http.Stricmp

/-!
Headers in the cache and their way back to a client. A header is stored as an HPACK literal;
`tfw_hpack_cache_decode_expand` reads it part by part, as it lies in the chunks of the
record, and appends it to the response, for HTTP/1.1 as text and for HTTP/2 as it was
stored, unless the configuration changes it. Memory for the response is always there.
-/

namespace Tempesta.Cache

open Hpack Http VarintLib

/-- A header to be stored: `hpack_idx` is the number of its name in the static
table, or zero. -/
structure CachedHdr where
  hpackIdx : Nat
  name : List UInt8
  value : List UInt8
  deriving DecidableEq, Repr

/-- `write_int` without a mask. -/
def writeInt (index max : Nat) : List UInt8 :=
  if index < max then [UInt8.ofNat index] else UInt8.ofNat max :: conts (index - max)

/-- The bytes `tfw_cache_h2_copy_hdr` stores after the `TfwCStr` of a header. -/
def storedHdr (hdr : CachedHdr) : List UInt8 :=
  (if hdr.hpackIdx ≠ 0 then writeInt hdr.hpackIdx 0xF
    else writeInt 0 0xF ++ writeInt hdr.name.length 0x7F ++ hdr.name.map tfwLc)
    ++ (writeInt hdr.value.length 0x7F ++ hdr.value)

def sDlm : List UInt8 := ofAscii ": "

def sCrlf : List UInt8 := [0xD, 0xA]

/-- `TfwHdrModsDesc`: without a value the header is removed. -/
structure HdrModsDesc where
  name : List UInt8
  value : Option (List UInt8)
  append : Bool
  deriving DecidableEq, Repr

/-- What is given for all headers: the protocol of the client and the headers configured to
be changed. -/
structure DcConf where
  h2Mode : Bool
  hMods : List HdrModsDesc

/-- What is kept between two calls: the fields of `TfwHPack` that are used here, those of
`TfwDecodeCacheIter`, and what was appended to the response. -/
structure DcState where
  state : HpackState
  index : Nat
  length : Nat
  shift : Nat
  hdrData : List (List UInt8)
  h2Data : List UInt8
  desc : Option HdrModsDesc
  skip : Bool
  out : List UInt8
  deriving DecidableEq, Repr

def DcState.init : DcState := ⟨.ready, 0, 0, 0, [], [], none, false, []⟩

/-- `n` bytes from a position on, of which `src` is the part up to the end of the data. -/
def peek (behind : Nat → UInt8) (src : List UInt8) (n : Nat) : List UInt8 :=
  (src ++ (List.range n).map behind).take n

def staticName (index : Nat) : Option (List UInt8) :=
  match staticTable[index - 1]? with
  | some entry => if entry.nameNum ≠ 1 then none else (entry.hdr.chunks.head?).map TfwChunk.data
  | none => none

namespace DcState

def setIndex (d : DcState) (x : Nat) : DcState := { d with index := x }

def setLength (d : DcState) (x : Nat) : DcState := { d with length := x }

def setState (d : DcState) (state : HpackState) : DcState := { d with state := state }

def expand (d : DcState) (data : List UInt8) : DcState := { d with out := d.out ++ data }

section macros
variable (conf : DcConf) (behind : Nat → UInt8)

/-- `FIXUP_H2_DATA(&dc_iter->h2_data, src, src - prev)` -/
def fixupH2Data (prev src : List UInt8) (d : DcState) : DcState :=
  if conf.h2Mode then { d with h2Data := d.h2Data ++ peek behind src (prev.length - src.length) }
  else d

/-- `EXPAND_H2_DATA(src, src - prev)` for a header that is not changed -/
def expandH2Data (prev src : List UInt8) (d : DcState) : DcState :=
  if d.desc = none ∧ conf.h2Mode then d.expand (peek behind src (prev.length - src.length)) else d

/-- The end of an integer: `set` stores it, `state` is the one to continue in if the data is
over, `emit` is for the bytes that were read in this call. -/
def flexible (emit : List UInt8 → DcState → DcState) (d : DcState) (set : DcState → Nat → DcState)
    (state : HpackState) (k : DcState → List UInt8 → Option DcState) : FlexRes → Option DcState
  | .done x src => k (emit src (set d x)) src
  | .more x m => some { emit [] (set d x) with state := state, shift := m }
  | .drop => none
  | .undefined => none

end macros

/-- A changed value: what is configured, behind the old value if it is appended -/
def modifyValue (conf : DcConf) (desc : HdrModsDesc) (d : DcState) : DcState :=
  let value := desc.value.getD []
  if conf.h2Mode then
    let val := if desc.append then d.hdrData.flatten ++ ofAscii ", " ++ value else value
    { d.expand (writeInt val.length 0x7F ++ val) with skip := true }
  else
    { d.expand (if desc.append then ofAscii ", " ++ value else value) with skip := true }

/-- The end of a header. It is a `break`, which does not store the state. -/
def valueDone (conf : DcConf) (d : DcState) : DcState :=
  let d := match d.desc with
    | some desc => d.modifyValue conf desc
    | none => d
  if conf.h2Mode then d else d.expand sCrlf

/-- `HPACK_STATE_VALUE_TEXT` -/
def valueText (conf : DcConf) (d : DcState) (src : List UInt8) : Option DcState :=
  let mLen := min src.length d.length
  let append := d.desc.any HdrModsDesc.append
  let d :=
    if append && conf.h2Mode then { d with hdrData := d.hdrData ++ [src.take mLen] }
    else if d.desc.isNone || append then d.expand (src.take mLen)
    else d
  let d := d.setLength (d.length - mLen)
  if d.length ≠ 0 then some (d.setState .valueText) else some (d.valueDone conf)

def valueRead (conf : DcConf) (d : DcState) (src : List UInt8) : Option DcState :=
  if src = [] then some (d.setState .valueText) else d.valueText conf src

section states
variable (conf : DcConf) (behind : Nat → UInt8)

/-- `HPACK_STATE_VALUE` -/
def value (d : DcState) : List UInt8 → Option DcState
  | [] => none
  | c :: src =>
    let x := c.toNat % 128
    if x = 0x7F then
      flexible (expandH2Data conf behind (c :: src)) d setLength .valueLength (valueRead conf)
        (getFlexible x 0 src)
    else valueRead conf (expandH2Data conf behind (c :: src) src (d.setLength x)) src

/-- The name goes out, and what was collected before it or the delimiter behind it. -/
def nameOut (d : DcState) : DcState :=
  let d := if conf.h2Mode then d.expand d.h2Data else d
  let d := { d.expand d.hdrData.flatten with hdrData := [] }
  if conf.h2Mode then d else d.expand sDlm

/-- The label `check_name_text`: the name is complete. -/
def checkName (d : DcState) (src : List UInt8) : Option DcState :=
  let desc := conf.hMods.find? fun m => stricmpEq d.hdrData [m.name]
  let d := { d with desc := desc }
  if desc.any fun m => m.value.isNone then some { d with skip := true }
  else
    let d := d.nameOut conf
    if src = [] then some (d.setState .value) else d.value conf behind src

/-- `HPACK_STATE_NAME_TEXT` -/
def nameText (d : DcState) (src : List UInt8) : Option DcState :=
  let mLen := min src.length d.length
  let d := { d with
    state := .nameText, hdrData := d.hdrData ++ [src.take mLen], length := d.length - mLen }
  if d.length ≠ 0 then some d else d.checkName conf behind (src.drop mLen)

def nameRead (d : DcState) (src : List UInt8) : Option DcState :=
  if src = [] then some (d.setState .nameText) else d.nameText conf behind src

/-- `HPACK_STATE_NAME` -/
def name (d : DcState) : List UInt8 → Option DcState
  | [] => none
  | c :: src =>
    let x := c.toNat % 128
    if x = 0x7F then
      flexible (fixupH2Data conf behind (c :: src)) d setLength .nameLength
        (nameRead conf behind) (getFlexible x 0 src)
    else if x = 0 then none
    else nameRead conf behind (fixupH2Data conf behind (c :: src) src (d.setLength x)) src

/-- `HPACK_STATE_INDEXED_NAME_TEXT` -/
def indexedName (d : DcState) (src : List UInt8) : Option DcState :=
  if d.index = 0 ∨ hpackStaticEntries < d.index then none
  else (staticName d.index).bind fun name =>
    checkName conf behind { d with state := .indexedNameText, hdrData := [name] } src

def indexRead (d : DcState) (src : List UInt8) : Option DcState :=
  if src = [] then some (d.setState (if d.index ≠ 0 then .indexedNameText else .name))
  else if d.index ≠ 0 then d.indexedName conf behind src
  else d.name conf behind src

def indexContinued (d : DcState) (src : List UInt8) : Option DcState :=
  if src = [] then some (d.setState .indexedNameText) else d.indexedName conf behind src

/-- `HPACK_STATE_READY` -/
def ready (d : DcState) : List UInt8 → Option DcState
  | [] => none
  | c :: src =>
    if 16 ≤ c.toNat then none
    else if c.toNat % 16 = 0xF then
      flexible (fixupH2Data conf behind (c :: src)) d setIndex .index (indexRead conf behind)
        (getFlexible (c.toNat % 16) 0 src)
    else
      indexRead conf behind
        (fixupH2Data conf behind (c :: src) src (d.setIndex (c.toNat % 16))) src

def readByte (d : DcState) (src : List UInt8) : Option DcState :=
  match d.state with
  | .ready => d.ready conf behind src
  | .name => d.name conf behind src
  | .value => d.value conf behind src
  | .index =>
    flexible (fixupH2Data conf behind src) d setIndex .index (indexContinued conf behind)
      (getContinue d.index d.shift src)
  | .nameLength =>
    flexible (fixupH2Data conf behind src) d setLength .nameLength (nameRead conf behind)
      (getContinue d.length d.shift src)
  | .valueLength =>
    flexible (expandH2Data conf behind src) d setLength .valueLength (valueRead conf)
      (getContinue d.length d.shift src)
  | _ => none

end states

end DcState

/-- `tfw_hpack_cache_decode_expand` for one part of the header and the memory behind it. An
empty part is warned about, and the byte behind it is read all the same. -/
def cacheDecodeExpand (conf : DcConf) (behind : Nat → UInt8) (d : DcState) (part : List UInt8) :
    Option DcState :=
  match d.state with
  | .indexedNameText => d.indexedName conf behind part
  | .nameText => d.nameText conf behind part
  | .valueText => d.valueText conf part
  | _ =>
    if part = [] then d.readByte conf (fun i => behind (i + 1)) [behind 0]
    else d.readByte conf behind part

/-- The loop of `tfw_cache_h2_decode_write` over the parts of a header, each with the memory
behind it -/
def decodeWriteFrom (conf : DcConf) : (Nat → Nat → UInt8) → DcState → List (List UInt8) →
    Option DcState
  | _, d, [] => some d
  | behind, d, part :: parts =>
    if d.skip then decodeWriteFrom conf (fun i => behind (i + 1)) d parts
    else
      (cacheDecodeExpand conf (behind 0) d part).bind fun d =>
        decodeWriteFrom conf (fun i => behind (i + 1)) d parts

/-- `tfw_cache_h2_decode_write`: what is appended to the response -/
def h2DecodeWrite (conf : DcConf) (behind : Nat → Nat → UInt8) (parts : List (List UInt8)) :
    Option (List UInt8) :=
  (decodeWriteFrom conf behind DcState.init parts).map DcState.out

/-- `tfw_cache_h2_write`: what is appended to the response -/
def h2Write (parts : List (List UInt8)) : List UInt8 :=
  parts.foldl (fun out part => out ++ part) []

/-- The text of a header as an HTTP/1.1 client gets it. -/
def h1Text (hdr : CachedHdr) : List UInt8 :=
  hdr.name.map tfwLc ++ sDlm ++ hdr.value ++ sCrlf

/-- What is known of a header that is stored: it has a name, and its index is the one of its
name in the static table. -/
structure CachedHdr.Wf (hdr : CachedHdr) : Prop where
  name_ne : hdr.name ≠ []
  indexed : hdr.hpackIdx ≠ 0 → hdr.hpackIdx ≤ hpackStaticEntries ∧
    staticName hdr.hpackIdx = some (hdr.name.map tfwLc)

end Tempesta.Cache
