import Tempesta.Http.H2Header
import Tempesta.Http.Chars
import Tempesta.Lib.Chain
import Tempesta.Str.Alphabet

/-!
The names of HTTP/1.1 request headers. Where enough data is at hand a name is compared
by words, else character by character; a name that is not known is read by
`RGen_HdrOtherN`. The comparisons by words may look behind the data of the buffer.
-/

namespace Tempesta.Http.HdrName

open List ScanLib ChainLib

/-- The headers whose values have parsers of their own: the states `Req_HdrXV` -/
inductive SpecHdr where
  | accept
  | authorization
  | cacheControl
  | connection
  | contentLength
  | contentType
  | cookie
  | host
  | ifModifiedSince
  | ifNoneMatch
  | keepAlive
  | pragma
  | referer
  | transferEncoding
  | xForwardedFor
  | xMethodOverride
  | userAgent
  deriving DecidableEq, Repr

/-- The slot of the header table: `TFW_HTTP_PARSE_SPECHDR_VAL` and
`TFW_HTTP_PARSE_RAWHDR_VAL` -/
def SpecHdr.slot : SpecHdr → TfwHttpHdr
  | .accept | .authorization | .cacheControl | .ifModifiedSince | .pragma | .xMethodOverride => .raw
  | .connection => .connection
  | .contentLength => .contentLength
  | .contentType => .contentType
  | .cookie => .cookie
  | .host => .host
  | .ifNoneMatch => .ifNoneMatch
  | .keepAlive => .keepAlive
  | .referer => .referer
  | .transferEncoding => .transferEncoding
  | .xForwardedFor => .xForwardedFor
  | .userAgent => .userAgent

/-- The chains of `__FSM_TX_AF` and `__FSM_TX_AF_OWS` -/
def specHdrs : List (List UInt8 × SpecHdr) :=
  [(ofAscii "accept:", .accept), (ofAscii "authorization:", .authorization),
    (ofAscii "cache-control:", .cacheControl), (ofAscii "connection:", .connection),
    (ofAscii "content-length:", .contentLength), (ofAscii "content-type:", .contentType),
    (ofAscii "host:", .host), (ofAscii "if-modified-since:", .ifModifiedSince),
    (ofAscii "if-none-match:", .ifNoneMatch), (ofAscii "keep-alive:", .keepAlive),
    (ofAscii "pragma:", .pragma), (ofAscii "referer:", .referer),
    (ofAscii "transfer-encoding:", .transferEncoding),
    (ofAscii "x-forwarded-for:", .xForwardedFor),
    (ofAscii "x-method-override:", .xMethodOverride), (ofAscii "x-http-method:", .xMethodOverride),
    (ofAscii "x-http-method-override:", .xMethodOverride), (ofAscii "user-agent:", .userAgent),
    (ofAscii "cookie:", .cookie)]

/-- `*(p + off) == c`, `TFW_LC(*(p + off)) == c`, and the comparisons `C4_INT_LCM` to
`C8_INT7_LCM` with the characters that are compared under the mask of the lower case
and those that are not -/
inductive Check where
  | byte (off : Nat) (c : Char)
  | lc (off : Nat) (c : Char)
  | word (off : Nat) (masked exact : String)
  deriving DecidableEq, Repr

def chr (c : Char) : UInt8 := UInt8.ofNat c.toNat

def Check.holds (p : List UInt8) : Check → Bool
  | .byte off c => p.getD off 0 == chr c
  | .lc off c => tfwLc (p.getD off 0) == chr c
  | .word off masked exact =>
    ((ofAscii masked).zipIdx off).all (fun x => p.getD x.2 0 ||| 0x20 == x.1) &&
      ((ofAscii exact).zipIdx (off + masked.length)).all fun x => p.getD x.2 0 == x.1

/-- A comparison of a whole name: the first letter, `__data_available` and the checks -/
structure FastName where
  letter : Char
  avail : Nat
  checks : List Check
  hdr : SpecHdr
  deriving DecidableEq, Repr

/-- `RGen_Hdr` but for the names with `c` -/
def fastNames : List FastName :=
  [⟨'a', 7, [.word 1 "ccep" "", .lc 6 't', .byte 13 ':'], .accept⟩,
    ⟨'a', 14, [.word 1 "uthoriza" "", .word 9 "tion" "", .byte 13 ':'], .authorization⟩,
    ⟨'h', 5, [.word 1 "ost" ":"], .host⟩,
    ⟨'i', 18, [.lc 1 'f', .byte 2 '-', .word 3 "modified" "", .byte 11 '-', .word 12 "sinc" "",
      .lc 16 'e', .byte 17 ':'], .ifModifiedSince⟩,
    ⟨'i', 14, [.lc 1 'f', .byte 2 '-', .word 3 "none" "", .byte 7 '-', .word 8 "matc" "",
      .lc 12 'h', .byte 13 ':'], .ifNoneMatch⟩,
    ⟨'k', 11, [.word 0 "keep" "", .byte 4 '-', .word 5 "aliv" "", .lc 9 'e', .byte 10 ':'],
      .keepAlive⟩,
    ⟨'p', 7, [.word 1 "ragm" "", .lc 5 'a', .byte 6 ':'], .pragma⟩,
    ⟨'r', 8, [.word 1 "efer" "", .lc 5 'e', .lc 6 'r', .byte 7 ':'], .referer⟩,
    ⟨'t', 18, [.word 0 "transfer" "", .byte 8 '-', .word 9 "encoding" "", .byte 17 ':'],
      .transferEncoding⟩,
    ⟨'x', 16, [.byte 1 '-', .byte 11 '-', .word 0 "x-forwar" "", .word 8 "ded-for" ":"],
      .xForwardedFor⟩,
    ⟨'x', 14, [.byte 1 '-', .byte 7 '-', .word 0 "x-http-m" "", .word 8 "etho" "", .byte 12 'd',
      .byte 10 ':'], .xMethodOverride⟩,
    ⟨'x', 23, [.byte 1 '-', .byte 7 '-', .byte 14 '-', .word 0 "x-http-m" "",
      .word 8 "ethod-ov" "", .word 16 "verride" ":"], .xMethodOverride⟩,
    ⟨'x', 18, [.byte 1 '-', .byte 9 '-', .word 2 "method-o" "", .word 10 "verride" ":"],
      .xMethodOverride⟩,
    ⟨'u', 11, [.word 0 "user" "", .byte 4 '-', .word 5 "agen" "", .lc 9 't', .byte 10 ':'],
      .userAgent⟩]

/-- `Req_HdrContent_` -/
def fastContent : List FastName :=
  [⟨'l', 7, [.word 1 "engt" "", .lc 5 'h', .byte 6 ':'], .contentLength⟩,
    ⟨'t', 5, [.word 1 "ype" ":"], .contentType⟩]

/-- The first name that compares equal. The checks may read what lies in memory `behind`
the data. -/
def tryNames (names : List FastName) (data behind : List UInt8) : Option SpecHdr :=
  (names.find? fun n =>
    data.head?.map tfwLc == some (chr n.letter) && n.avail ≤ data.length &&
      n.checks.all (Check.holds (data ++ behind))).map FastName.hdr

/-- Where the names with `c` lead to: a special header, `Req_HdrContent_` behind eight
characters, or `RGen_HdrOtherN` behind `n` of them -/
inductive HdrCRet where
  | special (hdr : SpecHdr)
  | content
  | other (n : Nat)
  deriving DecidableEq, Repr

/-- `RGen_Hdr` for a name with `c`, with 14 characters at hand -/
def hdrC (p : List UInt8) : HdrCRet :=
  let all (checks : List Check) := checks.all (Check.holds p)
  if all [.word 1 "ache" ""] then
    if all [.byte 5 '-', .word 6 "control" ":"] then .special .cacheControl else .other 5
  else if all [.word 1 "onne" ""] then
    if all [.word 5 "ctio" "", .lc 9 'n', .byte 10 ':'] then .special .connection else .other 5
  else if all [.word 1 "onte" ""] then
    if all [.lc 5 'n', .lc 6 't', .byte 7 '-'] then .content else .other 5
  else if all [.word 1 "ooki" ""] then
    if all [.lc 5 'e', .byte 6 ':'] then .special .cookie else .other 5
  else .other 1

/-- `RGen_Hdr`, a state of the chains with the characters seen in lower case, or
`RGen_HdrOtherN` -/
inductive HdrState where
  | hdr
  | name (seen : List UInt8)
  | otherN
  deriving DecidableEq, Repr

/-- The end of the headers, the value state of a special header, `RGen_HdrOtherV`, or
`TFW_BLOCK` -/
inductive HdrRet where
  | crlf
  | special (hdr : SpecHdr)
  | other
  | blocked
  deriving DecidableEq, Repr

section parser
variable (token : UInt8 → Bool)

/-- `RGen_HdrOtherN`. No character of the header has been stored (`hdrEmpty`) as long as
its name lies in one buffer. -/
def rGenHdrOtherN (hdrEmpty : Bool) (data : List UInt8) : HdrState ⊕ HdrRet :=
  match data.dropWhile token with
  | [] => .inl .otherN
  | c :: rest =>
    if c = 0x3a then
      if (c :: rest).length = data.length && hdrEmpty then .inr .blocked else .inr .other
    else .inr .blocked

/-- The states of the chains. A character off the chains is left to `RGen_HdrOtherN`. -/
def parseName (hdrEmpty : Bool) : List UInt8 → List UInt8 → HdrState ⊕ HdrRet
  | seen, [] => .inl (.name seen)
  | seen, c :: data =>
    match if seen = ofAscii "content-" then tryNames fastContent (c :: data) [] else none with
    | some hdr => .inr (.special hdr)
    | none =>
      match move specHdrs seen (tfwLc c) with
      | .whole hdr => .inr (.special hdr)
      | .part => parseName hdrEmpty (seen ++ [tfwLc c]) data
      | .off => rGenHdrOtherN token hdrEmpty (c :: data)

/-- `tfw_http_parse_req` from `RGen_Hdr` to the value of a header -/
def parseHdr (behind : List UInt8) : HdrState → List UInt8 → HdrState ⊕ HdrRet
  | .hdr, [] => .inl .hdr
  | .hdr, c :: data =>
    if isCrlf c then .inr .crlf
    else if tfwLc c = chr 'c' ∧ 14 ≤ (c :: data).length then
      match hdrC (c :: data) with
      | .special hdr => .inr (.special hdr)
      | .content => parseName token true (ofAscii "content-") ((c :: data).drop 8)
      | .other n => rGenHdrOtherN token true ((c :: data).drop n)
    else
      match tryNames fastNames (c :: data) behind with
      | some hdr => .inr (.special hdr)
      | none => parseName token true [] (c :: data)
  | .name seen, data => parseName token false seen data
  | .otherN, data => rGenHdrOtherN token false data

/-- The slot that the header is assigned to, none if the parser blocks -/
def HdrRet.slot : HdrRet → Option TfwHttpHdr
  | .special hdr => some hdr.slot
  | .other => some .raw
  | .crlf | .blocked => none

def IsName (line : List UInt8) (hdr : SpecHdr) : Prop :=
  ∃ name, (name, hdr) ∈ specHdrs ∧ name <+: line.map tfwLc

/-- However the line is cut and whatever lies behind the data in memory, it gets the slot
that it gets in one buffer, and it is taken for a special header only under its name. -/
def RecognisedAlike (line : List UInt8) : Prop :=
  ∀ pieces : List (List UInt8), (∀ d ∈ pieces, d ≠ []) → pieces.flatten = line →
    ∀ behind behind',
      ((feed (parseHdr token behind) .hdr pieces).getRight?.map HdrRet.slot =
        (feed (parseHdr token behind') .hdr [line]).getRight?.map HdrRet.slot) ∧
      ∀ hdr, feed (parseHdr token behind) .hdr pieces = .inr (.special hdr) → IsName line hdr

end parser

theorem tfwLc_of_mask (b : UInt8) (h : isLower (b ||| 0x20) = true) : tfwLc b = b ||| 0x20 := by
  revert h
  revert b
  apply Str.forall_byte
  decide +kernel

variable {b : UInt8} {data l : List UInt8}

lemma mask_tfwLc : tfwLc b ||| 0x20 = b ||| 0x20 := by
  revert b
  apply Str.forall_byte
  decide +kernel

lemma tfwLc_beq_dash : (tfwLc b == chr '-') = (b == chr '-') := by
  revert b
  apply Str.forall_byte
  decide +kernel

lemma tfwLc_beq_colon : (tfwLc b == chr ':') = (b == chr ':') := by
  revert b
  apply Str.forall_byte
  decide +kernel

lemma tfwLc_colon : tfwLc 0x3a = 0x3a := by
  decide

/-- The characters that a check asks for, in lower case; a mask does not tell a dash
from a carriage return. -/
def Check.asks : Check → List (Nat × UInt8)
  | .byte off c => [(off, tfwLc (chr c))]
  | .lc off c => [(off, chr c)]
  | .word off masked exact =>
    (((ofAscii masked).zipIdx off).filter fun x => isLower x.1).map Prod.swap ++
      ((ofAscii exact).zipIdx (off + masked.length)).map fun x => (x.2, tfwLc x.1)

variable {chk : Check} {p word seen p' a b l' line q d : List UInt8} {c : UInt8}
  {ds : List (List UInt8)}

lemma Check.asks_of_holds (h : chk.holds p = true) :
    ∀ x ∈ chk.asks, tfwLc (p.getD x.1 0) = x.2 := by
  cases chk with
  | byte off c =>
    rintro x hx
    rw [Check.asks, mem_singleton] at hx
    rw [hx, beq_iff_eq.mp h]
  | lc off c =>
    rintro x hx
    rw [Check.asks, mem_singleton] at hx
    rw [hx]
    exact beq_iff_eq.mp h
  | word off masked exact =>
    rintro ⟨i, c⟩ hx
    simp only [Check.holds, Bool.and_eq_true, all_eq_true, beq_iff_eq] at h
    simp only [Check.asks, mem_append, mem_map, mem_filter] at hx
    obtain ⟨y, ⟨hy, hlow⟩, heq⟩ | ⟨y, hy, heq⟩ := hx
    · cases heq
      have hmask := h.1 y hy
      rw [← hmask] at hlow
      exact (tfwLc_of_mask _ hlow).trans hmask
    · cases heq
      rw [h.2 y hy]

def FastName.asks (n : FastName) : List (Nat × UInt8) :=
  (0, chr n.letter) :: n.checks.flatMap Check.asks

/-- The comparison asks for two characters at one place. -/
def FastName.Dead (n : FastName) : Prop :=
  ∃ x ∈ n.asks, ∃ y ∈ n.asks, x.1 = y.1 ∧ x.2 ≠ y.2

/-- The comparison asks for all the characters of a word. -/
def FastName.Covers (n : FastName) (word : List UInt8) : Prop :=
  word.length ≤ n.avail ∧ ∀ y ∈ word.zipIdx, y.swap ∈ n.asks

/-- The comparison asks for all the characters of a name behind those of `seen`. -/
def FastName.Complete (seen : List UInt8) (n : FastName) : Prop :=
  ∃ x ∈ specHdrs, x.2 = n.hdr ∧ seen <+: x.1 ∧ seen ≠ x.1 ∧ n.Covers (x.1.drop seen.length)

instance (n : FastName) : Decidable n.Dead :=
  inferInstanceAs (Decidable (∃ x ∈ n.asks, ∃ y ∈ n.asks, x.1 = y.1 ∧ x.2 ≠ y.2))

instance (n : FastName) (word : List UInt8) : Decidable (n.Covers word) :=
  inferInstanceAs (Decidable (word.length ≤ n.avail ∧ ∀ y ∈ word.zipIdx, y.swap ∈ n.asks))

instance (seen : List UInt8) (n : FastName) : Decidable (n.Complete seen) :=
  inferInstanceAs (Decidable (∃ x ∈ specHdrs, x.2 = n.hdr ∧ seen <+: x.1 ∧ seen ≠ x.1 ∧
    n.Covers (x.1.drop seen.length)))

/-- Three of the comparisons with `x` can not succeed, and one with `a` does not compare the
name. -/
theorem fastNames_complete : ∀ n ∈ fastNames, n.hdr = .accept ∨ n.Dead ∨ n.Complete [] := by
  decide +kernel

lemma fastContent_complete : ∀ n ∈ fastContent, n.Complete (ofAscii "content-") := by
  decide +kernel

/-- The comparison of `Accept` as the source has it: `accep`, some character, `t` -/
def LooksLikeAccept (line : List UInt8) : Prop :=
  7 ≤ line.length ∧ (line.take 5).map tfwLc = ofAscii "accep" ∧ tfwLc (line.getD 6 0) = chr 't'

lemma exists_seven (h : 7 ≤ line.length) :
    ∃ a b c d e f g l, line = a :: b :: c :: d :: e :: f :: g :: l := by
  match line, h with
  | a :: b :: c :: d :: e :: f :: g :: l, _ => exact ⟨a, b, c, d, e, f, g, l, rfl⟩

lemma fastNames_accept : ∀ n ∈ fastNames, n.hdr = .accept → n.avail = 7 ∧
    [(0, chr 'a'), (1, chr 'c'), (2, chr 'c'), (3, chr 'e'), (4, chr 'p'), (6, chr 't')] ⊆
      n.asks := by
  decide +kernel

variable {n : FastName} {hdr : SpecHdr}

section tryNames
variable {names : List FastName} {behind : List UInt8}

lemma FastName.asks_of_checks (hletter : p.head?.map tfwLc = some (chr n.letter))
    (h : n.checks.all (Check.holds p)) : ∀ x ∈ n.asks, tfwLc (p.getD x.1 0) = x.2 := by
  intro x hx
  obtain rfl | hx := mem_cons.mp hx
  · cases p with
    | nil => cases hletter
    | cons c p => exact Option.some.inj hletter
  · obtain ⟨chk, hchk, hx⟩ := mem_flatMap.mp hx
    exact chk.asks_of_holds (all_eq_true.mp h chk hchk) x hx

lemma tryNames_some (h : tryNames names data behind = some hdr) :
    ∃ n ∈ names, n.hdr = hdr ∧ n.avail ≤ data.length ∧
      ∀ x ∈ n.asks, tfwLc ((data ++ behind).getD x.1 0) = x.2 := by
  obtain ⟨n, hfind, hhdr⟩ := Option.map_eq_some_iff.mp h
  have htest := find?_some hfind
  simp only [Bool.and_eq_true, beq_iff_eq, decide_eq_true_eq] at htest
  obtain ⟨⟨hletter, havail⟩, hchecks⟩ := htest
  refine ⟨n, mem_of_find?_eq_some hfind, hhdr, havail, FastName.asks_of_checks ?_ hchecks⟩
  cases data with
  | nil => cases hletter
  | cons c data => exact hletter

lemma FastName.Dead.false (h : n.Dead) (hasks : ∀ x ∈ n.asks, tfwLc (p.getD x.1 0) = x.2) :
    False := by
  obtain ⟨x, hx, y, hy, hplace, hne⟩ := h
  apply hne
  rw [← hasks x hx, ← hasks y hy, hplace]

lemma FastName.Covers.front (h : n.Covers word) (havail : n.avail ≤ data.length)
    (hasks : ∀ x ∈ n.asks, tfwLc ((data ++ behind).getD x.1 0) = x.2) :
    word <+: data.map tfwLc := by
  obtain ⟨hlen, hall⟩ := h
  rw [prefix_iff_eq_take]
  apply ext_getElem
  · simp
    omega
  · intro i hi hi'
    have hmem : (word[i], i) ∈ word.zipIdx := by
      rw [mk_mem_zipIdx_iff_getElem?, getElem?_eq_getElem hi]
    have hask := hasks _ (hall _ hmem)
    rw [Prod.swap, getD_eq_getElem?_getD, getElem?_append_left (by omega),
      getElem?_eq_getElem (by omega)] at hask
    rw [getElem_take, getElem_map]
    exact hask.symm

lemma FastName.Complete.rest (h : n.Complete seen) (havail : n.avail ≤ data.length)
    (hasks : ∀ x ∈ n.asks, tfwLc ((data ++ behind).getD x.1 0) = x.2) :
    ∃ rest, rest ≠ [] ∧ (seen ++ rest, n.hdr) ∈ specHdrs ∧ rest <+: data.map tfwLc := by
  obtain ⟨x, hx, hhdr, ⟨rest, hrest⟩, hne, hcovers⟩ := h
  rw [← hrest, drop_left] at hcovers
  refine ⟨rest, ?_, by rw [hrest, ← hhdr]; exact hx, hcovers.front havail hasks⟩
  rintro rfl
  exact hne (by rw [← hrest, append_nil])

/-- The comparisons of `Req_HdrContent_` -/
theorem tryNames_content (h : tryNames fastContent data [] = some hdr) :
    ∃ rest, rest ≠ [] ∧ (ofAscii "content-" ++ rest, hdr) ∈ specHdrs ∧
      rest <+: data.map tfwLc := by
  obtain ⟨n, hn, rfl, havail, hasks⟩ := tryNames_some h
  exact (fastContent_complete n hn).rest havail hasks

/-- The comparisons of `RGen_Hdr` -/
theorem tryNames_names (h : tryNames fastNames data behind = some hdr) :
    (hdr = .accept ∧ LooksLikeAccept data) ∨ IsName data hdr := by
  obtain ⟨n, hn, rfl, havail, hasks⟩ := tryNames_some h
  obtain haccept | hdead | hcomplete := fastNames_complete n hn
  · left
    refine ⟨haccept, ?_⟩
    obtain ⟨hseven, hsub⟩ := fastNames_accept n hn haccept
    rw [hseven] at havail
    have hget : ∀ {i c}, (i, c) ∈ n.asks → i < 7 → tfwLc (data.getD i 0) = c := by
      intro i c hmem hi
      have hask := hasks _ hmem
      rw [getD_eq_getElem?_getD, getElem?_append_left (by dsimp only; omega)] at hask
      rw [getD_eq_getElem?_getD]
      exact hask
    obtain ⟨a, b, c, d, e, f, g, l, rfl⟩ := exists_seven havail
    have ha : tfwLc a = chr 'a' := hget (i := 0) (hsub (by simp)) (by decide)
    have hb : tfwLc b = chr 'c' := hget (i := 1) (hsub (by simp)) (by decide)
    have hc : tfwLc c = chr 'c' := hget (i := 2) (hsub (by simp)) (by decide)
    have hd : tfwLc d = chr 'e' := hget (i := 3) (hsub (by simp)) (by decide)
    have he : tfwLc e = chr 'p' := hget (i := 4) (hsub (by simp)) (by decide)
    have hg : tfwLc g = chr 't' := hget (i := 6) (hsub (by simp)) (by decide)
    refine ⟨havail, ?_, hg⟩
    show [tfwLc a, tfwLc b, tfwLc c, tfwLc d, tfwLc e] = _
    rw [ha, hb, hc, hd, he]
    rfl
  · exact (hdead.false hasks).elim
  · right
    obtain ⟨rest, -, hmem, hle⟩ := hcomplete.rest havail hasks
    exact ⟨rest, hmem, hle⟩

end tryNames

section step
variable (token : UInt8 → Bool)

/-- One character in `RGen_HdrOtherN` when a part of the header is stored -/
def otherStep (c : UInt8) : HdrState ⊕ HdrRet :=
  if token c then .inl .otherN else .inr (if c = 0x3a then .other else .blocked)

/-- One character when the buffers hold one character each -/
def hdrStep : HdrState → UInt8 → HdrState ⊕ HdrRet
  | .hdr, c =>
    if isCrlf c then .inr .crlf
    else
      match move specHdrs [] (tfwLc c) with
      | .whole hdr => .inr (.special hdr)
      | .part => .inl (.name [tfwLc c])
      | .off => if token c then .inl .otherN else .inr .blocked
  | .name seen, c =>
    match move specHdrs seen (tfwLc c) with
    | .whole hdr => .inr (.special hdr)
    | .part => .inl (.name (seen ++ [tfwLc c]))
    | .off => otherStep token c
  | .otherN, c => otherStep token c

end step

lemma specHdrs_prefixFree : PrefixFree specHdrs := by
  decide +kernel

lemma specHdrs_part_nil : Part specHdrs [] := by
  decide +kernel

lemma specHdrs_letter : ∀ x ∈ specHdrs, x.1.head?.any isLower = true := by
  decide +kernel

lemma specHdrs_ne_nil (x : List UInt8 × SpecHdr) (hx : x ∈ specHdrs) : x.1 ≠ [] := by
  intro hnil
  have hletter := specHdrs_letter x hx
  rw [hnil] at hletter
  cases hletter

lemma letter_of_begins (h : Begins specHdrs [c]) : isLower c = true := by
  obtain ⟨x, hx, l, hl⟩ := h
  have hletter := specHdrs_letter x hx
  rw [← hl] at hletter
  exact hletter

lemma specHdrs_not_begins_colon : ¬ Begins specHdrs [0x3a] :=
  fun h => absurd (letter_of_begins h) (by decide)

section scan
variable {token : UInt8 → Bool}

lemma scan_otherN :
    scan (hdrStep token) .otherN l =
      match l.dropWhile token with
      | [] => .inl .otherN
      | c :: _ => .inr (if c = 0x3a then .other else .blocked) := by
  induction l with
  | nil => rfl
  | cons c l ih =>
    by_cases hc : token c
    · rw [scan_next (if_pos hc), ih, dropWhile_cons_of_pos hc]
    · rw [scan_stop (if_neg hc), dropWhile_cons_of_neg hc]

lemma rGenHdrOtherN_eq_scan :
    rGenHdrOtherN token false data = scan (hdrStep token) .otherN data := by
  rw [scan_otherN, rGenHdrOtherN]
  cases data.dropWhile token with
  | nil => rfl
  | cons c rest => by_cases hc : c = 0x3a <;> simp [hc]

lemma rGenHdrOtherN_colon (h : ¬ token 0x3a) :
    rGenHdrOtherN token true (0x3a :: l) = .inr .blocked := by
  rw [rGenHdrOtherN, dropWhile_cons_of_neg h]
  simp

lemma rGenHdrOtherN_stored (h : data.head? = some 0x3a → token 0x3a) :
    rGenHdrOtherN token true data = scan (hdrStep token) .otherN data := by
  rw [scan_otherN, rGenHdrOtherN]
  cases hdrop : data.dropWhile token with
  | nil => rfl
  | cons c rest =>
    by_cases hc : c = 0x3a
    · subst hc
      have hne : (0x3a :: rest).length ≠ data.length := by
        intro hlen
        have hdata : data.dropWhile token = data :=
          (dropWhile_suffix token).eq_of_length (by rw [hdrop, hlen])
        have hhead : token 0x3a := by
          apply h
          rw [← hdata, hdrop]
          rfl
        have hnot := head?_dropWhile_not token data
        rw [hdrop] at hnot
        simp [hhead] at hnot
      simpa using hne
    · simp [hc]

lemma hdrStep_name (h : move specHdrs q (tfwLc c) = .part) :
    hdrStep token (.name q) c = .inl (.name (q ++ [tfwLc c])) := by
  rw [hdrStep, h]

lemma scan_name_whole {rest : List UInt8} (hne : rest ≠ []) (h : (seen ++ rest, hdr) ∈ specHdrs)
    (hle : rest <+: l.map tfwLc) : scan (hdrStep token) (.name seen) l = .inr (.special hdr) := by
  obtain ⟨q, l, rfl, rfl⟩ : ∃ q l', l = q ++ l' ∧ rest = q.map tfwLc := by
    refine ⟨l.take rest.length, l.drop rest.length, (take_append_drop _ _).symm, ?_⟩
    rw [map_take]
    exact prefix_iff_eq_take.mp hle
  have hq : q ≠ [] := by
    rintro rfl
    exact hne rfl
  obtain ⟨q', c, hmove, hscan⟩ := scan_whole specHdrs_prefixFree
    (fun _ _ => @hdrStep_name _ _ token) hq h l
  rw [hscan]
  refine scan_stop ?_
  rw [hdrStep, hmove]

lemma scan_name_part (h : Part specHdrs (q.map tfwLc)) :
    scan (hdrStep token) (.name []) (q ++ l) = scan (hdrStep token) (.name (q.map tfwLc)) l := by
  have hq : Part specHdrs ([] ++ q.map tfwLc) := h
  exact scan_part specHdrs_prefixFree (fun _ _ => @hdrStep_name _ _ token) q l hq

/-- What `Req_HdrContent_` finds by comparison, the characters find too. -/
theorem scan_of_content
    (h : (if seen = ofAscii "content-" then tryNames fastContent data [] else none) = some hdr) :
    scan (hdrStep token) (.name seen) data = .inr (.special hdr) := by
  split at h
  · rename_i hseen
    subst hseen
    obtain ⟨rest, hne, hmem, hle⟩ := tryNames_content h
    exact scan_name_whole hne hmem hle
  · cases h

lemma parseName_eq_scan (seen : List UInt8) :
    parseName token false seen data = scan (hdrStep token) (.name seen) data := by
  induction data generalizing seen with
  | nil => rfl
  | cons c data ih =>
    rw [parseName]
    split
    · rename_i hdr h
      exact (scan_of_content h).symm
    · cases hmove : move specHdrs seen (tfwLc c) with
      | whole hdr => exact (scan_stop (by rw [hdrStep, hmove])).symm
      | part =>
        rw [scan_next (hdrStep_name hmove)]
        exact ih _
      | off =>
        rw [rGenHdrOtherN_eq_scan, scan, scan, hdrStep, hmove]
        rfl

/-- A colon behind a part of a name, where it ends no name -/
def ColonBehind (token : UInt8 → Bool) (seen data : List UInt8) : Prop :=
  ¬ token 0x3a ∧ ∃ q l, data = q ++ 0x3a :: l ∧ Part specHdrs (seen ++ q.map tfwLc) ∧
    ¬ Begins specHdrs (seen ++ q.map tfwLc ++ [0x3a])

lemma scan_colonBehind (h : ColonBehind token seen data) :
    scan (hdrStep token) (.name seen) data = .inr .other := by
  obtain ⟨htoken, q, l, rfl, hpart, hcolon⟩ := h
  rw [scan_part specHdrs_prefixFree (fun _ _ => @hdrStep_name _ _ token) q (0x3a :: l) hpart]
  refine scan_stop ?_
  rw [hdrStep, tfwLc_colon, move_of_not_begins hcolon]
  simp [otherStep, htoken]

lemma colonBehind_cons (h : Begins specHdrs (seen ++ [tfwLc c])) :
    ColonBehind token seen (c :: data) ↔ ColonBehind token (seen ++ [tfwLc c]) data := by
  constructor
  · rintro ⟨htoken, q, l, hq, hpart, hcolon⟩
    refine ⟨htoken, ?_⟩
    cases q with
    | nil =>
      obtain ⟨rfl, rfl⟩ := cons_eq_cons.mp hq
      rw [map_nil, append_nil] at hcolon
      exact absurd h hcolon
    | cons d q =>
      obtain ⟨rfl, rfl⟩ := cons_eq_cons.mp hq
      rw [map_cons, append_cons seen] at hpart hcolon
      exact ⟨q, l, rfl, hpart, hcolon⟩
  · rintro ⟨htoken, q, l, rfl, hpart, hcolon⟩
    rw [← append_cons seen, ← map_cons] at hpart hcolon
    exact ⟨htoken, c :: q, l, rfl, hpart, hcolon⟩

lemma parseName_colon (h : ColonBehind token seen data) :
    parseName token true seen data = .inr .blocked := by
  have hscan := scan_colonBehind h
  induction data generalizing seen with
  | nil =>
    obtain ⟨-, q, l, hq, -⟩ := h
    cases q <;> cases hq
  | cons c data ih =>
    rw [parseName]
    split
    · rename_i hdr hcontent
      rw [scan_of_content hcontent] at hscan
      cases hscan
    · cases hmove : move specHdrs seen (tfwLc c) with
      | whole hdr =>
        rw [scan_stop (r := .special hdr) (by rw [hdrStep, hmove])] at hscan
        cases hscan
      | part =>
        have hcolon := (colonBehind_cons (part_of_move hmove).begins).mp h
        exact ih hcolon (scan_colonBehind hcolon)
      | off =>
        obtain ⟨htoken, q, l, hq, hpart, -⟩ := h
        cases q with
        | nil =>
          obtain ⟨rfl, rfl⟩ := cons_eq_cons.mp hq
          exact rGenHdrOtherN_colon htoken
        | cons d q =>
          obtain ⟨rfl, rfl⟩ := cons_eq_cons.mp hq
          rw [map_cons, append_cons] at hpart
          exact absurd hpart.begins.of_append (not_begins_of_move hmove)

lemma parseName_stored (hseen : Part specHdrs seen) (h : ¬ ColonBehind token seen data) :
    parseName token true seen data = scan (hdrStep token) (.name seen) data := by
  induction data generalizing seen with
  | nil => rfl
  | cons c data ih =>
    rw [parseName]
    split
    · rename_i hdr hcontent
      exact (scan_of_content hcontent).symm
    · cases hmove : move specHdrs seen (tfwLc c) with
      | whole hdr => exact (scan_stop (by rw [hdrStep, hmove])).symm
      | part =>
        rw [scan_next (hdrStep_name hmove)]
        have hpart := part_of_move hmove
        exact ih hpart fun hcolon => h ((colonBehind_cons hpart.begins).mpr hcolon)
      | off =>
        have hstored : (c :: data).head? = some 0x3a → token 0x3a := by
          intro hhead
          cases hhead
          by_contra htoken
          have hoff := not_begins_of_move hmove
          rw [tfwLc_colon] at hoff
          exact h ⟨htoken, [], data, rfl, by simpa using hseen, by simpa using hoff⟩
        rw [rGenHdrOtherN_stored hstored, scan, scan, hdrStep, hmove]
        rfl

end scan

variable {x : List UInt8 × HdrCRet}

section hdrC
/-- The checks of `hdrC` on one way to its result -/
theorem covers_of_checks (hcovers : n.Covers word)
    (hletter : p.head?.map tfwLc = some (chr n.letter)) (havail : n.avail ≤ p.length)
    (h : n.checks.all (Check.holds p)) : word <+: p.map tfwLc := by
  have hasks := FastName.asks_of_checks hletter h
  rw [← append_nil p] at hasks
  exact hcovers.front havail hasks

def HdrCRet.Sound (p : List UInt8) : HdrCRet → Prop
  | .special hdr => IsName p hdr
  | .content => ofAscii "content-" <+: p.map tfwLc
  | .other n => ∃ word, word.length = n ∧ word ≠ [] ∧ Part specHdrs word ∧
      ¬ Begins specHdrs (word ++ [0x3a]) ∧ word <+: p.map tfwLc

/-- The words behind which `hdrC` leaves the names -/
theorem specHdrs_parts :
    ∀ word ∈ [ofAscii "c", ofAscii "cache", ofAscii "conne", ofAscii "conte", ofAscii "cooki"],
      word ≠ [] ∧ Part specHdrs word ∧ ¬ Begins specHdrs (word ++ [0x3a]) := by
  decide +kernel

lemma hdrC_sound (hletter : p.head?.map tfwLc = some (chr 'c')) (hlen : 14 ≤ p.length) :
    (hdrC p).Sound p := by
  have hword : ∀ checks word, (⟨'c', 14, checks, .accept⟩ : FastName).Covers word →
      checks.all (Check.holds p) → word <+: p.map tfwLc :=
    fun checks word hcovers h => covers_of_checks hcovers hletter hlen h
  have hboth : ∀ {cs cs' : List Check}, cs.all (Check.holds p) → cs'.all (Check.holds p) →
      (cs ++ cs').all (Check.holds p) := by
    intro cs cs' h h'
    rw [all_append, h, h']
    rfl
  have hother : ∀ {checks} word, (⟨'c', 14, checks, .accept⟩ : FastName).Covers word →
      word ∈ [ofAscii "c", ofAscii "cache", ofAscii "conne", ofAscii "conte", ofAscii "cooki"] →
      checks.all (Check.holds p) → (HdrCRet.other word.length).Sound p := by
    intro checks word hcovers hmem h
    obtain ⟨hne, hpart, hend⟩ := specHdrs_parts word hmem
    exact ⟨word, rfl, hne, hpart, hend, hword _ word hcovers h⟩
  unfold hdrC
  dsimp only
  split
  · rename_i h₁
    split
    · rename_i h₂
      exact ⟨ofAscii "cache-control:", by simp [specHdrs],
        hword _ _ (by decide +kernel) (hboth h₁ h₂)⟩
    · exact hother (ofAscii "cache") (by decide +kernel) (by simp) h₁
  · split
    · rename_i h₁
      split
      · rename_i h₂
        exact ⟨ofAscii "connection:", by simp [specHdrs],
          hword _ _ (by decide +kernel) (hboth h₁ h₂)⟩
      · exact hother (ofAscii "conne") (by decide +kernel) (by simp) h₁
    · split
      · rename_i h₁
        split
        · rename_i h₂
          exact hword _ _ (by decide +kernel) (hboth h₁ h₂)
        · exact hother (ofAscii "conte") (by decide +kernel) (by simp) h₁
      · split
        · rename_i h₁
          split
          · rename_i h₂
            exact ⟨ofAscii "cookie:", by simp [specHdrs],
              hword _ _ (by decide +kernel) (hboth h₁ h₂)⟩
          · exact hother (ofAscii "cooki") (by decide +kernel) (by simp) h₁
        · exact @hother [] (ofAscii "c") (by decide +kernel) (by simp) rfl

def Check.exacts : Check → List UInt8
  | .byte _ c => [chr c]
  | .lc _ _ => []
  | .word _ _ exact => ofAscii exact

def Check.reach : Check → Nat
  | .byte off _ | .lc off _ => off + 1
  | .word off masked exact => off + masked.length + exact.length

/-- The check reads `n` characters and does not tell upper from lower case. -/
def Check.Folds (n : Nat) (chk : Check) : Prop :=
  chk.reach ≤ n ∧ ∀ x ∈ chk.exacts, x = chr '-' ∨ x = chr ':'

instance (n : Nat) (chk : Check) : Decidable (chk.Folds n) :=
  inferInstanceAs (Decidable (chk.reach ≤ n ∧ ∀ x ∈ chk.exacts, x = chr '-' ∨ x = chr ':'))

lemma Check.holds_congr {n : Nat} (h : chk.Folds n)
    (hp : ∀ i < n, tfwLc (p.getD i 0) = tfwLc (p'.getD i 0)) : chk.holds p = chk.holds p' := by
  obtain ⟨hreach, hexacts⟩ := h
  have hlen : ∀ s, (ofAscii s).length = s.length := by
    intro s
    rw [ofAscii, length_map, String.length_toList]
  have hmask : ∀ i < n, p.getD i 0 ||| 0x20 = p'.getD i 0 ||| 0x20 := by
    intro i hi
    rw [← mask_tfwLc, hp i hi, mask_tfwLc]
  have hexact : ∀ i < n, ∀ x ∈ chk.exacts, (p.getD i 0 == x) = (p'.getD i 0 == x) := by
    intro i hi x hx
    obtain rfl | rfl := hexacts x hx
    · rw [← tfwLc_beq_dash, hp i hi, tfwLc_beq_dash]
    · rw [← tfwLc_beq_colon, hp i hi, tfwLc_beq_colon]
  cases chk with
  | byte off c => exact hexact off hreach _ (mem_singleton_self _)
  | lc off c => rw [Check.holds, Check.holds, hp off hreach]
  | word off masked exact =>
    rw [Check.reach] at hreach
    rw [Check.holds, Check.holds]
    congr 1
    · rw [Bool.eq_iff_iff, all_eq_true, all_eq_true]
      apply forall₂_congr
      intro x hx
      have hi := snd_lt_add_of_mem_zipIdx hx
      rw [hlen] at hi
      rw [hmask x.2 (by omega)]
    · rw [Bool.eq_iff_iff, all_eq_true, all_eq_true]
      apply forall₂_congr
      intro x hx
      have hi := snd_lt_add_of_mem_zipIdx hx
      rw [hlen] at hi
      rw [hexact x.2 (by omega) x.1 (fst_mem_of_mem_zipIdx hx)]

variable {checks : List Check}

lemma Check.all_congr {n : Nat} (h : ∀ chk ∈ checks, chk.Folds n)
    (hp : ∀ i < n, tfwLc (p.getD i 0) = tfwLc (p'.getD i 0)) :
    checks.all (Check.holds p) = checks.all (Check.holds p') := by
  rw [Bool.eq_iff_iff, all_eq_true, all_eq_true]
  apply forall₂_congr
  intro chk hchk
  rw [Check.holds_congr (h chk hchk) hp]

/-- `hdrC` reads 14 characters. -/
theorem hdrC_append (hlen : 14 ≤ p.length) (l : List UInt8) : hdrC (p ++ l) = hdrC p := by
  have hall : ∀ {checks : List Check}, (∀ chk ∈ checks, chk.Folds 14) →
      checks.all (Check.holds (p ++ l)) = checks.all (Check.holds p) := by
    intro checks h
    apply Check.all_congr h
    intro i hi
    rw [getD_append _ _ _ _ (by omega)]
  unfold hdrC
  simp (disch := decide +kernel) only [hall]

/-- The beginnings that `hdrC` compares in full -/
def hdrCWords : List (List UInt8 × HdrCRet) :=
  [(ofAscii "cache-control:", .special .cacheControl),
    (ofAscii "connection:", .special .connection),
    (ofAscii "content-", .content), (ofAscii "cookie:", .special .cookie)]

lemma hdrC_of_word (hx : x ∈ hdrCWords) (h : x.1 <+: p.map tfwLc) : hdrC p = x.2 := by
  have hall : ∀ {checks : List Check}, (∀ chk ∈ checks, chk.Folds x.1.length) →
      checks.all (Check.holds p) = checks.all (Check.holds x.1) := by
    intro checks hfolds
    apply Check.all_congr hfolds
    intro i hi
    obtain ⟨l, hl⟩ := h
    have hget : (p.map tfwLc).getD i 0 = tfwLc (p.getD i 0) := getD_map p 0 tfwLc
    rw [← getD_append _ _ _ _ hi, hl, hget, tfwLc_tfwLc]
  have hyes : ∀ {checks : List Check}, (∀ chk ∈ checks, chk.Folds x.1.length) ∧
      checks.all (Check.holds x.1) = true → checks.all (Check.holds p) = true :=
    fun hx => (hall hx.1).trans hx.2
  have hno : ∀ {checks : List Check}, (∀ chk ∈ checks, chk.Folds x.1.length) ∧
      checks.all (Check.holds x.1) = false → checks.all (Check.holds p) = false :=
    fun hx => (hall hx.1).trans hx.2
  unfold hdrC
  simp only [hdrCWords, mem_cons, not_mem_nil, or_false] at hx
  obtain rfl | rfl | rfl | rfl := hx
  · simp (disch := decide +kernel) only [hyes, if_true]
  · simp (disch := decide +kernel) only [hyes, hno, Bool.false_eq_true, if_true, if_false]
  · simp (disch := decide +kernel) only [hyes, hno, Bool.false_eq_true, if_true, if_false]
  · simp (disch := decide +kernel) only [hyes, hno, Bool.false_eq_true, if_true, if_false]

end hdrC

def ColonInName (token : UInt8 → Bool) (line : List UInt8) : Prop :=
  ¬ token 0x3a ∧ ∃ q l, line = q ++ 0x3a :: l ∧ q ≠ [] ∧ Part specHdrs (q.map tfwLc) ∧
    ¬ Begins specHdrs (q.map tfwLc ++ [0x3a])

/-- A name with `c` that `RGen_Hdr` leaves to `RGen_HdrOtherN` behind `n` characters -/
def FastSkip (line : List UInt8) (n : Nat) : Prop :=
  line.head?.map tfwLc = some (chr 'c') ∧ 14 ≤ line.length ∧ hdrC line = .other n

section first
variable {token : UInt8 → Bool} {behind : List UInt8}

lemma scan_hdr (hcr : ¬ isCrlf c) (h : c = 0x3a → token c) :
    scan (hdrStep token) .hdr (c :: l) = scan (hdrStep token) (.name []) (c :: l) := by
  have hstep : hdrStep token .hdr c = hdrStep token (.name []) c := by
    rw [hdrStep, hdrStep, if_neg hcr]
    cases move specHdrs [] (tfwLc c) with
    | whole hdr => rfl
    | part => rfl
    | off =>
      unfold otherStep
      by_cases htoken : token c
      · rw [if_pos htoken, if_pos htoken]
      · rw [if_neg htoken, if_neg htoken, if_neg fun hc => htoken (h hc)]
  rw [scan, scan, hstep]

lemma scan_hdr_of_begins (h : Begins specHdrs [tfwLc c]) :
    scan (hdrStep token) .hdr (c :: l) = scan (hdrStep token) (.name []) (c :: l) := by
  apply scan_hdr
  · intro hcr
    have hboth : ∀ b : UInt8, ¬ (isCrlf b = true ∧ isLower (tfwLc b) = true) := by
      apply Str.forall_byte
      decide +kernel
    exact hboth c ⟨hcr, letter_of_begins h⟩
  · rintro rfl
    exact absurd h specHdrs_not_begins_colon

lemma scan_isName (h : IsName line hdr) :
    scan (hdrStep token) (.name []) line = .inr (.special hdr) := by
  obtain ⟨name, hmem, hle⟩ := h
  exact scan_name_whole (specHdrs_ne_nil _ hmem) hmem hle

lemma IsName.head_ne_colon (h : IsName line hdr) : line.head? ≠ some 0x3a := by
  intro hhead
  obtain ⟨l, rfl⟩ := head?_eq_some_iff.mp hhead
  obtain ⟨name, hmem, hle⟩ := h
  obtain ⟨c, name, rfl⟩ := exists_cons_of_ne_nil (specHdrs_ne_nil _ hmem)
  obtain ⟨rest, hrest⟩ := hle
  obtain ⟨rfl, -⟩ := cons_eq_cons.mp hrest
  exact specHdrs_not_begins_colon ⟨_, hmem, name, rfl⟩

lemma exists_of_prefix_map (h : word <+: line.map tfwLc) :
    ∃ q, line = q ++ line.drop word.length ∧ q.map tfwLc = word := by
  refine ⟨line.take word.length, (take_append_drop _ _).symm, ?_⟩
  rw [map_take]
  exact (prefix_iff_eq_take.mp h).symm

lemma colonBehind_append (h : Begins specHdrs (seen ++ q.map tfwLc)) :
    ColonBehind token seen (q ++ l) ↔ ColonBehind token (seen ++ q.map tfwLc) l := by
  induction q generalizing seen with
  | nil => rw [nil_append, map_nil, append_nil]
  | cons c q ih =>
    rw [map_cons, append_cons] at h ⊢
    rw [cons_append, colonBehind_cons h.of_append]
    exact ih h

lemma colonInName_iff :
    ColonInName token line ↔ ColonBehind token [] line ∧ line.head? ≠ some 0x3a := by
  constructor
  · rintro ⟨htoken, q, l, rfl, hq, hpart, hcolon⟩
    refine ⟨⟨htoken, q, l, rfl, hpart, hcolon⟩, ?_⟩
    obtain ⟨c, q, rfl⟩ := exists_cons_of_ne_nil hq
    intro hhead
    cases hhead
    exact specHdrs_not_begins_colon (@Begins.of_append _ _ _ [0x3a] _ hpart.begins)
  · rintro ⟨⟨htoken, q, l, rfl, hpart, hcolon⟩, hhead⟩
    refine ⟨htoken, q, l, rfl, ?_, hpart, hcolon⟩
    rintro rfl
    exact hhead rfl

lemma scan_colonInName (h : ColonInName token line) :
    scan (hdrStep token) .hdr line = .inr .other := by
  have hcolon := (colonInName_iff.mp h).1
  obtain ⟨-, q, l, rfl, hq, hpart, -⟩ := h
  obtain ⟨c, q, rfl⟩ := exists_cons_of_ne_nil hq
  rw [cons_append, scan_hdr_of_begins (@Begins.of_append _ _ _ [tfwLc c] _ hpart.begins)]
  exact scan_colonBehind hcolon

lemma not_colonInName_of_isName (h : IsName line hdr) : ¬ ColonInName token line := by
  intro hcolon
  have hscan := scan_colonBehind (colonInName_iff.mp hcolon).1
  rw [scan_isName h] at hscan
  cases hscan

variable (token behind) in
/-- The first buffer of a header is read as its characters are, but for a colon behind a
part of a name, for what looks like `Accept`, and for names with `c`. -/
theorem parseHdr_cases {d : List UInt8} (hd : d ≠ []) :
    (¬ ColonInName token d ∧ parseHdr token behind .hdr d = scan (hdrStep token) .hdr d) ∨
      (ColonInName token d ∧ parseHdr token behind .hdr d = .inr .blocked) ∨
      (LooksLikeAccept d ∧ parseHdr token behind .hdr d = .inr (.special .accept)) ∨
      ∃ n, FastSkip d n ∧ parseHdr token behind .hdr d = rGenHdrOtherN token true (d.drop n) := by
  obtain ⟨c, l, rfl⟩ := exists_cons_of_ne_nil hd
  rw [parseHdr]
  split
  · rename_i hcr
    have hscan : scan (hdrStep token) .hdr (c :: l) = .inr .crlf :=
      scan_stop (by rw [hdrStep, if_pos hcr])
    refine .inl ⟨fun hcolon => ?_, hscan.symm⟩
    rw [scan_colonInName hcolon] at hscan
    cases hscan
  rename_i hcr
  split
  · rename_i hfast
    obtain ⟨hc, hlen⟩ := hfast
    have hne : c ≠ 0x3a := by
      rintro rfl
      exact absurd hc (by decide)
    have hletter : (c :: l).head?.map tfwLc = some (chr 'c') := congrArg some hc
    have hsound := hdrC_sound hletter hlen
    rw [scan_hdr hcr fun h => absurd h hne]
    cases hret : hdrC (c :: l) with
    | special hdr =>
      rw [hret] at hsound
      exact .inl ⟨not_colonInName_of_isName hsound, (scan_isName hsound).symm⟩
    | content =>
      rw [hret] at hsound
      obtain ⟨q, hq, hmap⟩ := exists_of_prefix_map hsound
      have hpart : Part specHdrs (ofAscii "content-") := by decide +kernel
      have height : (ofAscii "content-").length = 8 := by decide
      rw [height] at hq
      have hcolon : ColonInName token (c :: l) ↔
          ColonBehind token (ofAscii "content-") ((c :: l).drop 8) := by
        rw [colonInName_iff, and_iff_left (by simpa using hne), ← hmap]
        conv_lhs => rw [hq]
        exact colonBehind_append (by rw [nil_append, hmap]; exact hpart.begins)
      by_cases hbehind : ColonBehind token (ofAscii "content-") ((c :: l).drop 8)
      · exact .inr (.inl ⟨hcolon.mpr hbehind, parseName_colon hbehind⟩)
      · refine .inl ⟨fun h => hbehind (hcolon.mp h), (parseName_stored hpart hbehind).trans ?_⟩
        conv_rhs => rw [hq]
        rw [← hmap, scan_name_part (by rw [hmap]; exact hpart)]
    | other n => exact .inr (.inr (.inr ⟨n, ⟨hletter, hlen, hret⟩, rfl⟩))
  · split
    · rename_i hdr htry
      obtain ⟨rfl, hlooks⟩ | hname := tryNames_names htry
      · exact .inr (.inr (.inl ⟨hlooks, rfl⟩))
      · refine .inl ⟨not_colonInName_of_isName hname, ?_⟩
        rw [scan_hdr hcr fun hc => absurd (congrArg some hc) hname.head_ne_colon,
          scan_isName hname]
    · by_cases hbehind : ColonBehind token [] (c :: l)
      · rw [parseName_colon hbehind]
        by_cases hc : c = 0x3a
        · subst hc
          refine .inl ⟨fun h => (colonInName_iff.mp h).2 rfl, (scan_stop ?_).symm⟩
          have hoff : move specHdrs [] (tfwLc 0x3a) = .off :=
            move_of_not_begins specHdrs_not_begins_colon
          rw [hdrStep, if_neg hcr, hoff]
          exact if_neg hbehind.1
        · exact .inr (.inl ⟨colonInName_iff.mpr ⟨hbehind, by simpa using hc⟩, rfl⟩)
      · refine .inl ⟨fun h => hbehind (colonInName_iff.mp h).1, ?_⟩
        have hcolon : c = 0x3a → token c := by
          rintro rfl
          by_contra htoken
          exact hbehind ⟨htoken, [], l, rfl, specHdrs_part_nil, specHdrs_not_begins_colon⟩
        rw [parseName_stored specHdrs_part_nil hbehind, scan_hdr hcr hcolon]

end first

/-- What the rest of a name leads to when it is read by `RGen_HdrOtherN`: it has no end yet,
ends with a colon, or ends with another character. -/
def nameEnd (token : UInt8 → Bool) (l : List UInt8) : Option Bool :=
  (l.dropWhile token).head?.map (· == 0x3a)

/-- Where a name with `c` leaves the names of the special headers, it ends as it does behind
the characters that `RGen_Hdr` skips. This says something only for a token alphabet of the
configuration that lacks letters of the names. -/
def SkipAlike (token : UInt8 → Bool) (line : List UInt8) : Prop :=
  ∀ q c l n, line = q ++ c :: l → Part specHdrs (q.map tfwLc) →
    ¬ Begins specHdrs (q.map tfwLc ++ [tfwLc c]) → FastSkip line n →
    nameEnd token (line.drop n) = nameEnd token (c :: l)

section buffers
variable {token : UInt8 → Bool} {behind : List UInt8} {n : Nat}

lemma LooksLikeAccept.append (h : LooksLikeAccept d) : LooksLikeAccept (d ++ l) := by
  obtain ⟨hlen, hfive, hsix⟩ := h
  refine ⟨by rw [length_append]; omega, ?_, ?_⟩
  · rw [take_append_of_le_length (by omega)]
    exact hfive
  · rw [getD_append _ _ _ _ (by omega)]
    exact hsix

lemma ColonInName.append (h : ColonInName token d) : ColonInName token (d ++ l) := by
  obtain ⟨htoken, q, l', rfl, hrest⟩ := h
  exact ⟨htoken, q, l' ++ l, append_assoc q _ l, hrest⟩

lemma FastSkip.append (h : FastSkip d n) : FastSkip (d ++ l) n := by
  obtain ⟨hletter, hlen, hret⟩ := h
  refine ⟨?_, by rw [length_append]; omega, (hdrC_append hlen l).trans hret⟩
  cases d with
  | nil => cases hletter
  | cons c d => exact hletter

lemma FastSkip.not_word (h : FastSkip line n) (hx : x ∈ hdrCWords) :
    ¬ x.1 <+: line.map tfwLc := by
  intro hle
  have hret := hdrC_of_word hx hle
  rw [h.2.2] at hret
  have hother : ∀ x ∈ hdrCWords, ∀ n, x.2 ≠ .other n := by
    simp [hdrCWords]
  exact hother x hx n hret.symm

/-- The names with `c`: `hdrC` compares them in full. -/
theorem specHdrs_words : ∀ x ∈ specHdrs, x.1.head? = some (chr 'c') →
    ∃ y ∈ hdrCWords, y.1 <+: x.1 ∧ (y.1.length ≤ 8 ∨ x.1.length ≤ 14) := by
  decide +kernel

lemma specHdrs_last : ∀ x ∈ specHdrs, x.1.getLast? = some 0x3a := by
  decide +kernel

lemma head?_of_isPrefix (h : a <+: b) (ha : a ≠ []) : b.head? = a.head? := by
  obtain ⟨c, a, rfl⟩ := exists_cons_of_ne_nil ha
  obtain ⟨l, rfl⟩ := h
  rfl

lemma FastSkip.part_short (h : FastSkip (q ++ l) n) (hlen : 8 ≤ q.length)
    (hpart : Part specHdrs (q.map tfwLc)) :
    ∃ x ∈ specHdrs, q.map tfwLc <+: x.1 ∧ q.length < x.1.length ∧ x.1.length ≤ 14 := by
  obtain ⟨x, hx, hle, hne⟩ := hpart
  have hq : q ≠ [] := by
    rintro rfl
    cases hlen
  have hhead : x.1.head? = some (chr 'c') := by
    rw [head?_of_isPrefix hle (by simpa using hq), head?_map, ← h.1]
    exact congrArg (Option.map tfwLc) (head?_of_isPrefix (prefix_append q l) hq).symm
  have hlt : q.length < x.1.length := by
    have hle' := hle.length_le
    have hne' : (q.map tfwLc).length ≠ x.1.length := fun heq => hne (hle.eq_of_length heq)
    rw [length_map] at hle' hne'
    omega
  obtain ⟨y, hy, hyx, hshort | hshort⟩ := specHdrs_words x hx hhead
  · refine absurd ?_ (h.not_word hy)
    rw [map_append]
    refine List.IsPrefix.trans ?_ (prefix_append _ _)
    exact prefix_of_prefix_length_le hyx hle (by rw [length_map]; omega)
  · exact ⟨x, hx, hle, hlt, hshort⟩

/-- The characters of a line that is skipped leave the names of the special headers. -/
theorem FastSkip.leaves (h : FastSkip line n) :
    ∃ q c l, line = q ++ c :: l ∧ Part specHdrs (q.map tfwLc) ∧
      ¬ Begins specHdrs (q.map tfwLc ++ [tfwLc c]) := by
  have hlen := h.2.1
  obtain hpart | ⟨q, c, l, rfl, hpart, hend⟩ | ⟨q, hdr, l, rfl, hmem⟩ :=
    split_cases tfwLc specHdrs_part_nil line
  · rw [← append_nil line] at h
    obtain ⟨x, -, -, hlt, hle⟩ := h.part_short (by omega) hpart
    omega
  · exact ⟨q, c, l, rfl, hpart, hend⟩
  · have hq := specHdrs_ne_nil _ hmem
    have hhead : (q.map tfwLc).head? = some (chr 'c') := by
      rw [head?_map, ← h.1]
      refine congrArg (Option.map tfwLc) (head?_of_isPrefix (prefix_append q l) ?_).symm
      simpa using hq
    obtain ⟨y, hy, hyx, -⟩ := specHdrs_words _ hmem hhead
    refine absurd ?_ (h.not_word hy)
    rw [map_append]
    exact hyx.trans (prefix_append _ _)

lemma not_fastSkip_colon (hpart : Part specHdrs (q.map tfwLc))
    (hend : ¬ Begins specHdrs (q.map tfwLc ++ [0x3a])) : ¬ FastSkip (q ++ [0x3a]) n := by
  intro h
  have hlen := h.2.1
  rw [length_append, length_singleton] at hlen
  obtain ⟨x, hx, ⟨rest, hrest⟩, hlt, hle⟩ := h.part_short (by omega) hpart
  have hone : rest.length = 1 := by
    have := congrArg List.length hrest
    rw [length_append, length_map] at this
    omega
  obtain ⟨c, rfl⟩ := length_eq_one_iff.mp hone
  have hlast := specHdrs_last x hx
  rw [← hrest, getLast?_append] at hlast
  have hc : c = 0x3a := Option.some.inj hlast
  rw [hc] at hrest
  exact hend ⟨x, hx, by rw [hrest]⟩

/-- `RGen_HdrOtherN` behind the characters skipped -/
theorem FastSkip.otherN (h : FastSkip d n) : n ≤ d.length ∧
    ((ColonInName token d ∧ rGenHdrOtherN token true (d.drop n) = .inr .blocked) ∨
      rGenHdrOtherN token true (d.drop n) = scan (hdrStep token) .otherN (d.drop n)) := by
  obtain ⟨hletter, hlen, hret⟩ := h
  have hsound := hdrC_sound hletter hlen
  rw [hret] at hsound
  obtain ⟨word, rfl, hne, hpart, hend, hle⟩ := hsound
  obtain ⟨q, hq, hmap⟩ := exists_of_prefix_map hle
  refine ⟨by simpa using hle.length_le, ?_⟩
  by_cases hstored : (d.drop word.length).head? = some 0x3a → token 0x3a
  · exact .inr (rGenHdrOtherN_stored hstored)
  · obtain ⟨hhead, htoken⟩ := Classical.not_imp.mp hstored
    obtain ⟨l, hl⟩ := head?_eq_some_iff.mp hhead
    rw [hl] at hq ⊢
    refine .inl ⟨⟨htoken, q, l, hq, ?_, ?_, ?_⟩, rGenHdrOtherN_colon htoken⟩
    · rintro rfl
      exact hne hmap.symm
    · rw [hmap]
      exact hpart
    · rw [hmap]
      exact hend

variable {s s' : HdrState}

lemma hdrStep_ne_hdr (h : hdrStep token s c = .inl s') : s' ≠ .hdr := by
  rintro rfl
  cases s with
  | hdr =>
    rw [hdrStep] at h
    split at h
    · cases h
    · split at h
      · cases h
      · cases h
      · split at h <;> cases h
  | name seen =>
    rw [hdrStep] at h
    split at h
    · cases h
    · cases h
    · rw [otherStep] at h
      split at h <;> cases h
  | otherN =>
    rw [hdrStep, otherStep] at h
    split at h <;> cases h

lemma parseHdr_eq_scan (hs : s ≠ .hdr) (d : List UInt8) :
    parseHdr token behind s d = scan (hdrStep token) s d := by
  cases s with
  | hdr => exact absurd rfl hs
  | name seen => rw [parseHdr, parseName_eq_scan]
  | otherN => rw [parseHdr, rGenHdrOtherN_eq_scan]

variable {s₀ : HdrState}

lemma feed_of_scan (hds : ∀ d ∈ ds, d ≠ [])
    (h : parseHdr token behind .hdr d = scan (hdrStep token) s₀ l) (hl : s₀ = .hdr → l ≠ []) :
    feed (parseHdr token behind) .hdr (d :: ds) =
      scan (hdrStep token) s₀ (l ++ ds.flatten) := by
  refine feed_cons_of_scan (I := fun s => s ≠ .hdr) (fun s c s' _ => hdrStep_ne_hdr)
    (fun s d hs _ => parseHdr_eq_scan hs d) ?_ hds h
  intro s₁ hs₁
  cases l with
  | nil =>
    cases hs₁
    exact fun h₀ => hl h₀ rfl
  | cons c l =>
    cases hs : hdrStep token s₀ c with
    | inl s =>
      rw [scan_next hs] at hs₁
      exact scan_invariant (I := fun s => s ≠ .hdr) (fun s c s' _ => hdrStep_ne_hdr)
        (hdrStep_ne_hdr hs) hs₁
    | inr r =>
      rw [scan_stop hs] at hs₁
      cases hs₁

variable (behind) in
lemma feed_cases (hd : d ≠ []) (hds : ∀ d ∈ ds, d ≠ [])
    (hcolon : ¬ ColonInName token (d ++ ds.flatten))
    (haccept : ¬ LooksLikeAccept (d ++ ds.flatten)) :
    feed (parseHdr token behind) .hdr (d :: ds) =
        scan (hdrStep token) .hdr (d ++ ds.flatten) ∨
      ∃ n, FastSkip (d ++ ds.flatten) n ∧
        feed (parseHdr token behind) .hdr (d :: ds) =
          scan (hdrStep token) .otherN ((d ++ ds.flatten).drop n) := by
  obtain ⟨-, h⟩ | ⟨h, -⟩ | ⟨h, -⟩ | ⟨n, hskip, h⟩ :=
    parseHdr_cases token behind hd
  · exact .inl (feed_of_scan hds h fun _ => hd)
  · exact absurd h.append hcolon
  · exact absurd h.append haccept
  · right
    obtain ⟨hn, ⟨hd, -⟩ | hother⟩ := hskip.otherN
    · exact absurd hd.append hcolon
    · refine ⟨n, hskip.append, ?_⟩
      rw [drop_append_of_le_length hn]
      exact feed_of_scan hds (h.trans hother) fun h => by cases h

theorem parseHdr_char (s : HdrState) (c : UInt8) :
    parseHdr token behind s [c] = hdrStep token s c := by
  refine Eq.trans ?_ (scan_singleton s c)
  by_cases hs : s = .hdr
  · subst hs
    obtain ⟨-, h⟩ | ⟨⟨-, q, l, hq, hne, -⟩, -⟩ | ⟨⟨hlen, -⟩, -⟩ | ⟨n, ⟨-, hlen, -⟩, -⟩ :=
      parseHdr_cases token behind (cons_ne_nil c [])
    · exact h
    · obtain ⟨d, q, rfl⟩ := exists_cons_of_ne_nil hne
      have := congrArg List.length hq
      simp at this
    · simp at hlen
    · simp at hlen
  · exact parseHdr_eq_scan hs [c]

lemma feed_chars : feed (parseHdr token behind) .hdr (line.map fun c => [c]) =
    scan (hdrStep token) .hdr line :=
  feed_singletons parseHdr_char .hdr line

lemma parseHdr_skip (h : FastSkip line n) :
    parseHdr token behind .hdr line = rGenHdrOtherN token true (line.drop n) := by
  obtain ⟨hletter, hlen, hret⟩ := h
  cases line with
  | nil => cases hletter
  | cons c l =>
    have hc : tfwLc c = chr 'c' := Option.some.inj hletter
    have hcr : ¬ isCrlf c := by
      intro hcr
      have hboth : ∀ b : UInt8, ¬ (isCrlf b = true ∧ tfwLc b = chr 'c') := by
        apply Str.forall_byte
        decide +kernel
      exact hboth c ⟨hcr, hc⟩
    rw [parseHdr, if_neg hcr, if_pos ⟨hc, hlen⟩, hret]

lemma scan_leaves (hq : q ≠ []) (hpart : Part specHdrs (q.map tfwLc))
    (hend : ¬ Begins specHdrs (q.map tfwLc ++ [tfwLc c])) :
    scan (hdrStep token) .hdr (q ++ c :: l) = scan (hdrStep token) .otherN (c :: l) := by
  have hname := @scan_name_part (c :: l) q token hpart
  obtain ⟨b, q, rfl⟩ := exists_cons_of_ne_nil hq
  rw [cons_append, scan_hdr_of_begins (@Begins.of_append _ _ _ [tfwLc b] _ hpart.begins)]
  refine hname.trans ?_
  rw [scan, scan, hdrStep, move_of_not_begins hend]
  rfl

lemma FastSkip.scan_eq (h : FastSkip (q ++ c :: l) n) (hpart : Part specHdrs (q.map tfwLc))
    (hend : ¬ Begins specHdrs (q.map tfwLc ++ [tfwLc c])) :
    scan (hdrStep token) .hdr (q ++ c :: l) = scan (hdrStep token) .otherN (c :: l) := by
  refine scan_leaves ?_ hpart hend
  rintro rfl
  have hletter : tfwLc c = chr 'c' := Option.some.inj h.1
  rw [hletter] at hend
  exact absurd (by decide +kernel) hend

lemma scan_otherN_not_special : scan (hdrStep token) .otherN l ≠ .inr (.special hdr) := by
  rw [scan_otherN]
  split
  · nofun
  · split <;> nofun

lemma isName_of_scan (h : scan (hdrStep token) .hdr line = .inr (.special hdr)) :
    IsName line hdr := by
  obtain hpart | ⟨q, c, l, rfl, hpart, hend⟩ | ⟨q, hdr', l, rfl, hmem⟩ :=
    split_cases tfwLc specHdrs_part_nil line
  · cases line with
    | nil => cases h
    | cons c l =>
      rw [scan_hdr_of_begins (@Begins.of_append _ _ _ [tfwLc c] _ hpart.begins),
        ← append_nil (c :: l), scan_name_part hpart] at h
      cases h
  · by_cases hq : q = []
    · subst hq
      have hstep : hdrStep token .hdr c ≠ .inr (.special hdr) ∧
          ∀ s, hdrStep token .hdr c = .inl s → s = .otherN := by
        rw [hdrStep]
        split
        · exact ⟨nofun, nofun⟩
        · have hoff : move specHdrs [] (tfwLc c) = .off := move_of_not_begins hend
          rw [hoff]
          dsimp only
          split
          · exact ⟨nofun, fun s hs => by cases hs; rfl⟩
          · exact ⟨nofun, nofun⟩
      cases hs : hdrStep token .hdr c with
      | inl s =>
        rw [nil_append, scan_next hs, hstep.2 s hs] at h
        exact absurd h scan_otherN_not_special
      | inr r =>
        rw [nil_append, scan_stop hs] at h
        rw [hs] at hstep
        exact absurd h hstep.1
    · rw [scan_leaves hq hpart hend] at h
      exact absurd h scan_otherN_not_special
  · have hname : IsName (q ++ l) hdr' :=
      ⟨_, hmem, by rw [map_append]; exact prefix_append _ _⟩
    have hne := specHdrs_ne_nil _ hmem
    obtain ⟨c, q, rfl⟩ := exists_cons_of_ne_nil (fun hq => hne (by rw [hq]; rfl) : q ≠ [])
    have hscan := @scan_isName _ _ token hname
    rw [cons_append] at h hscan
    rw [scan_hdr_of_begins ⟨_, hmem, prefix_append [tfwLc c] _⟩, hscan] at h
    cases h
    exact hname

abbrev slotOf (r : HdrState ⊕ HdrRet) : Option (Option TfwHttpHdr) := r.getRight?.map HdrRet.slot

lemma slotOf_otherN :
    slotOf (scan (hdrStep token) .otherN l) = slotOf (scan (hdrStep token) .otherN l') ↔
      nameEnd token l = nameEnd token l' := by
  have hslot : ∀ l, slotOf (scan (hdrStep token) .otherN l) =
      (nameEnd token l).map fun b => if b then some .raw else none := by
    intro l
    rw [scan_otherN, nameEnd]
    cases l.dropWhile token with
    | nil => rfl
    | cons c rest => by_cases hc : c = 0x3a <;> simp [slotOf, HdrRet.slot, hc]
  rw [hslot, hslot]
  refine (Option.map_injective ?_).eq_iff
  intro b b' hb
  revert hb
  revert b b'
  decide

variable (behind) in
lemma slotOf_feed {pieces : List (List UInt8)} (hpieces : ∀ d ∈ pieces, d ≠ [])
    (haccept : ¬ LooksLikeAccept pieces.flatten) (hcolon : ¬ ColonInName token pieces.flatten)
    (hskip : SkipAlike token pieces.flatten) :
    slotOf (feed (parseHdr token behind) .hdr pieces) =
        slotOf (scan (hdrStep token) .hdr pieces.flatten) ∧
      ∀ hdr, feed (parseHdr token behind) .hdr pieces = .inr (.special hdr) →
        IsName pieces.flatten hdr := by
  cases pieces with
  | nil => exact ⟨rfl, nofun⟩
  | cons d ds =>
    obtain ⟨hd, hds⟩ := forall_mem_cons.mp hpieces
    rw [flatten_cons] at haccept hcolon hskip ⊢
    obtain h | ⟨n, hn, h⟩ := feed_cases behind hd hds hcolon haccept
    · rw [h]
      exact ⟨rfl, fun hdr => isName_of_scan⟩
    · rw [h]
      refine ⟨?_, fun hdr hspecial => absurd hspecial scan_otherN_not_special⟩
      obtain ⟨q, c, l, hline, hpart, hend⟩ := hn.leaves
      have hends := hskip q c l n hline hpart hend hn
      rw [hline] at hn hends ⊢
      rw [hn.scan_eq hpart hend]
      exact slotOf_otherN.mpr hends

lemma LooksLikeAccept.not_isName (h : LooksLikeAccept line) : ¬ IsName line .accept := by
  rintro ⟨name, hmem, l, hl⟩
  have hname : ∀ x ∈ specHdrs, x.2 = .accept → x.1.getD 6 0 = 0x3a ∧ x.1.length = 7 := by
    decide +kernel
  obtain ⟨hcolon, hlen⟩ := hname _ hmem rfl
  dsimp only at hcolon hlen
  have hget : (line.map tfwLc).getD 6 0 = tfwLc (line.getD 6 0) := getD_map line 0 tfwLc
  rw [← hl, getD_append _ _ _ _ (by omega), hcolon, h.2.2] at hget
  exact absurd hget (by decide)

/-- What looks like `Accept` in a buffer of seven characters -/
theorem parseHdr_looksLikeAccept (h : LooksLikeAccept line) :
    parseHdr token (List.replicate 6 0 ++ [0x3a]) .hdr (line.take 7) = .inr (.special .accept) := by
  obtain ⟨hlen, hfive, hg⟩ := h
  obtain ⟨a, b, c, d, e, f, g, l, rfl⟩ := exists_seven hlen
  have hletters : [tfwLc a, tfwLc b, tfwLc c, tfwLc d, tfwLc e] = ofAscii "accep" := hfive
  have haccep : ofAscii "accep" = [0x61, 0x63, 0x63, 0x65, 0x70] := by decide
  rw [haccep] at hletters
  simp only [List.cons.injEq, and_true] at hletters
  obtain ⟨ha, hb, hc, hd, he⟩ := hletters
  have hcr : isCrlf a = false := by
    have hnot : ∀ b : UInt8, tfwLc b = 0x61 → isCrlf b = false := by
      apply Str.forall_byte
      decide +kernel
    exact hnot a ha
  have hmask : ∀ {x y : UInt8}, tfwLc x = y → y ||| 0x20 = y → x ||| 0x20 = y := by
    intro x y hx hy
    rw [← mask_tfwLc, hx, hy]
  have hb' := hmask hb (by decide)
  have hc' := hmask hc (by decide)
  have hd' := hmask hd (by decide)
  have he' := hmask he (by decide)
  have hg' : tfwLc g = chr 't' := hg
  have htry : tryNames fastNames [a, b, c, d, e, f, g] (List.replicate 6 0 ++ [0x3a]) =
      some .accept := by
    rw [tryNames, fastNames, find?_cons_of_pos]
    · rfl
    · simp [Check.holds, ha, hb', hc', hd', he', hg', chr, ofAscii]
  rw [take_succ_cons, take_succ_cons, take_succ_cons, take_succ_cons,
    take_succ_cons, take_succ_cons, take_succ_cons, take_zero, parseHdr, hcr, ha,
    htry]
  rfl

theorem recognisedAlike_iff (token : UInt8 → Bool) (line : List UInt8) :
    RecognisedAlike token line ↔
      ¬ LooksLikeAccept line ∧ ¬ ColonInName token line ∧ SkipAlike token line := by
  constructor
  · intro h
    have hchars : ∀ d : List UInt8, (∀ x ∈ d.map fun c => [c], x ≠ []) ∧
        (d.map fun c => [c]).flatten = d :=
      fun d => ⟨by simp, flatten_singletons d⟩
    have hcut : ∀ d l, d ≠ [] → line = d ++ l → ∀ behind,
        slotOf (feed (parseHdr token behind) .hdr (d :: l.map fun c => [c])) =
            slotOf (scan (hdrStep token) .hdr line) ∧
          ∀ hdr, feed (parseHdr token behind) .hdr (d :: l.map fun c => [c]) = .inr (.special hdr) →
            IsName line hdr := by
      intro d l hd hline behind
      have h₁ := h (d :: l.map fun c => [c]) (forall_mem_cons.mpr ⟨hd, (hchars l).1⟩)
        (by rw [flatten_cons, (hchars l).2, hline]) behind []
      have h₂ := h (line.map fun c => [c]) (hchars line).1 (hchars line).2 [] []
      rw [feed_chars] at h₂
      exact ⟨h₁.1.trans h₂.1.symm, h₁.2⟩
    have haccept : ¬ LooksLikeAccept line := by
      intro hlooks
      have hlen := hlooks.1
      have hne : line.take 7 ≠ [] := by
        intro hnil
        have hzero := congrArg List.length hnil
        rw [length_take, length_nil] at hzero
        omega
      have hcut' := hcut (line.take 7) (line.drop 7) hne (take_append_drop 7 line).symm
        (List.replicate 6 0 ++ [0x3a])
      rw [feed, parseHdr_looksLikeAccept hlooks] at hcut'
      exact hlooks.not_isName (hcut'.2 _ rfl)
    have hcolon : ¬ ColonInName token line := by
      intro hcolon
      have hscan := scan_colonInName hcolon
      obtain ⟨htoken, q, l, hline, hq, hpart, hend⟩ := hcolon
      have hd : ColonInName token (q ++ [0x3a]) := ⟨htoken, q, [], rfl, hq, hpart, hend⟩
      have hsplit : line = q ++ [0x3a] ++ l := by rw [hline, append_assoc]; rfl
      have hcut' := (hcut (q ++ [0x3a]) l (by simp) hsplit []).1
      obtain ⟨hnot, -⟩ | ⟨-, hblocked⟩ | ⟨hlooks, -⟩ | ⟨n, hskip, -⟩ :=
        parseHdr_cases token [] (append_ne_nil_of_right_ne_nil q (cons_ne_nil 0x3a []))
      · exact hnot hd
      · rw [feed, hblocked, hscan] at hcut'
        cases hcut'
      · exact haccept (hsplit ▸ hlooks.append)
      · exact not_fastSkip_colon hpart hend hskip
    refine ⟨haccept, hcolon, ?_⟩
    intro q c l n hline hpart hend hskip
    have hne : line ≠ [] := by
      rintro rfl
      cases hskip.1
    have hcut' := (hcut line [] hne (append_nil line).symm []).1
    obtain ⟨-, ⟨hd, -⟩ | hother⟩ := @FastSkip.otherN line token n hskip
    · exact absurd hd hcolon
    · have hfeed := @feed_of_scan (line.drop n) line [] token [] .otherN (by simp)
        ((parseHdr_skip hskip).trans hother) (by intro h; cases h)
      rw [flatten_nil, append_nil] at hfeed
      rw [map_nil, hfeed] at hcut'
      rw [hline] at hskip
      refine slotOf_otherN.mp (hcut'.trans ?_)
      rw [hline, hskip.scan_eq hpart hend]
  · rintro ⟨haccept, hcolon, hskip⟩ pieces hpieces rfl behind behind'
    have hfeed := slotOf_feed behind hpieces haccept hcolon hskip
    refine ⟨hfeed.1.trans ?_, hfeed.2⟩
    by_cases hnil : pieces.flatten = []
    · rw [hnil]
      rfl
    · have hone : [pieces.flatten].flatten = pieces.flatten := append_nil _
      have hwhole := @slotOf_feed token behind' [pieces.flatten] (by simpa using hnil)
      rw [hone] at hwhole
      exact (hwhole haccept hcolon hskip).1.symm

end buffers

/-- The header `If` is blocked when it arrives in one buffer, and gets the raw slot when its
name is cut. -/
theorem if_in_one_buffer : ¬ RecognisedAlike (Str.builtinTable .token) (ofAscii "If: x") := by
  intro h
  have hcut : slotOf _ = slotOf _ :=
    (h [ofAscii "I", ofAscii "f: x"] (by decide) (by decide) [] []).1
  have hraw : slotOf (feed (parseHdr (Str.builtinTable .token) []) .hdr
      [ofAscii "I", ofAscii "f: x"]) = some (some .raw) := by
    decide +kernel
  have hblocked : slotOf (feed (parseHdr (Str.builtinTable .token) []) .hdr [ofAscii "If: x"]) =
      some none := by
    decide +kernel
  rw [hraw, hblocked] at hcut
  cases hcut

end Tempesta.Http.HdrName
