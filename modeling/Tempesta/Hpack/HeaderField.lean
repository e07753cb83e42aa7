import Tempesta.Http.H2Header
import Tempesta.Hpack.DecoderTable

/-!
A header field in a header block is a literal, whose name and value the header
parser reads, or a reference to an entry of the decoder's tables, for which
`tfw_hpack_hdr_set` restores what the parser would have set from the tag of the
entry. For entries of the dynamic table it does not restore the method and the
content length.
-/

namespace Tempesta.Hpack

open List Http

/-- The `_hdr_tag` for an entry, as in the switch of `tfw_hpack_hdr_set`. -/
def hdrSetTag : TfwHPackTag → Option TfwHttpHdr
  | .h2Method => some .h2Method
  | .h2Scheme => some .h2Scheme
  | .h2Authority => some .h2Authority
  | .h2Path => some .h2Path
  | .accept => some .raw
  | .authorization => some .raw
  | .cacheControl => some .raw
  | .contentLength => some .contentLength
  | .contentType => some .contentType
  | .cookie => some .cookie
  | .host => some .host
  | .ifModifiedSince => some .raw
  | .ifNoneMatch => some .ifNoneMatch
  | .pragma => some .raw
  | .referer => some .referer
  | .xForwardedFor => some .xForwardedFor
  | .userAgent => some .userAgent
  | .raw => some .raw
  | .transferEncoding => none

/-- `tfw_hpack_hdr_set`; the allocations succeed. -/
def tfwHpackHdrSet (index : Nat) (req : H2Req) (entry : TfwHPackEntry) : Option H2Req :=
  if index ≤ hpackStaticEntries ∧ entry.hdr.chunks.length ≠ 2 then none
  else
    match entry.tag with
    | .h2Method =>
      if index = 2 then some { req with method := .get, hdrTag := .h2Method }
      else if index = 3 then some { req with method := .post, hdrTag := .h2Method }
      else none
    | tag => (hdrSetTag tag).map fun hid => { req with hdrTag := hid }

/-- A field that refers to an entry, `HPACK_STATE_ALL_INDEXED` in
`tfw_hpack_decode`. -/
def decodeIndexed (tbl : TfwHPackDTbl) (index : Nat) (req : H2Req) : Option H2Req :=
  match tfwHpackFindIndex tbl index with
  | some (some entry) => (tfwHpackHdrSet index req entry).bind tfwHttpMsgHdrClose
  | _ => none

/-- The name of a literal field: text in pieces, or that of an entry with a tag. -/
inductive FieldName where
  | text (pieces : List (List UInt8))
  | indexed (tag : TfwHPackTag)

def FieldName.parse (env : H2ParserEnv) : FieldName → Option (TfwHPackTag × H2ValueState)
  | text pieces => parseName env .hdr pieces
  | indexed tag => (reqNextState tag).map fun s => (tag, s)

/-- A literal field. -/
structure LiteralField where
  name : FieldName
  value : List (List UInt8)

/-- A literal field, `HPACK_STATE_NAME` to `HPACK_STATE_VALUE_TEXT` in
`tfw_hpack_decode`: the tag for the decoder table and the request behind it. -/
def decodeLiteral (env : H2ParserEnv) (req : H2Req) (f : LiteralField) :
    Option (TfwHPackTag × H2Req) := do
  let (tag, s) ← f.name.parse env
  if f.value.flatten = [] then none
  else
    let req ← parseValue env s req f.value
    let req ← tfwHttpMsgHdrClose req
    some (tag, req)

variable {k : KnownName} {tag : TfwHPackTag} {pieces value : List (List UInt8)}
  {s next : H2ValueState} {req' req req₁ : H2Req} {digits : List UInt8} {acc n index : Nat}
  {tbl : TfwHPackDTbl} {entry : TfwHPackEntry}

section Name

def Paired (tag : TfwHPackTag) (s : H2ValueState) : Prop :=
  reqNextState tag = some s ∨ tag = .raw ∧ s = .hdrXMethodOverrideV

instance (tag : TfwHPackTag) (s : H2ValueState) : Decidable (Paired tag s) := by
  unfold Paired
  infer_instance

/-- Every result of the name parser is one of a tag and a state that go together, and it is
there exactly with the last piece of the name. -/
def NameRet.Ok (fin : Bool) : NameRet → Prop
  | .ok tag s => fin = true ∧ Paired tag s
  | .postpone _ => fin = false
  | .drop => True

lemma paired_raw : Paired .raw .hdrOtherV := .inl rfl

lemma paired_knownNames : ∀ k ∈ knownNames, Paired k.tag k.next := by decide +kernel

lemma paired_nameCases :
    ∀ c ∈ nameCases, ∀ t ∈ c.tries, ∀ k ∈ t.2, Paired k.tag k.next := by
  decide +kernel

variable (env : H2ParserEnv) (fin : Bool)

/-- The end of a name that is not known -/
lemma NameRet.Ok.other {s : NameState} :
    NameRet.Ok fin (if (!fin) = true then .postpone s else .ok .raw .hdrOtherV) := by
  cases fin with
  | false => rfl
  | true => exact ⟨rfl, paired_raw⟩

lemma nameOtherN_ok (data : List UInt8) : NameRet.Ok fin (nameOtherN env fin data) := by
  unfold nameOtherN
  split
  · trivial
  · exact .other fin

lemma nameFin_ok (h : Paired k.tag k.next) (data : List UInt8) :
    NameRet.Ok fin (nameFin env fin k data) := by
  unfold nameFin
  split
  · exact nameOtherN_ok env fin data
  · cases fin with
    | false => rfl
    | true => exact ⟨rfl, h⟩

lemma nameFrom_ok (seen data : List UInt8) : NameRet.Ok fin (nameFrom env fin seen data) := by
  induction data generalizing seen with
  | nil => exact .other fin
  | cons c data ih =>
    rw [nameFrom]
    cases hk : knownNames.find? fun k => k.name == seen ++ [c] with
    | some k => exact nameFin_ok env fin (paired_knownNames k (mem_of_find?_eq_some hk)) data
    | none =>
      dsimp only
      split
      · trivial
      split
      · exact ih (seen ++ [c])
      split
      · split
        · exact nameOtherN_ok env fin data
        · exact .other fin
      split
      · trivial
      · exact nameOtherN_ok env fin (c :: data)

lemma nameHdr_ok (data : List UInt8) : NameRet.Ok fin (nameHdr env fin data) := by
  unfold nameHdr
  by_cases hshort : data.length < 4
  · rw [if_pos hshort]
    exact nameFrom_ok env fin [] data
  rw [if_neg hshort]
  cases hc : nameCases.find? fun k => k.first.isPrefixOf data with
  | none => exact nameOtherN_ok env fin data
  | some k =>
    dsimp only
    by_cases hneed : data.length < k.need
    · rw [if_pos hneed]
      exact nameFrom_ok env fin k.first (data.drop 4)
    rw [if_neg hneed]
    cases ht : k.tries.find? fun t => t.1.isPrefixOf data with
    | none =>
      dsimp only
      split
      · trivial
      split
      · exact nameOtherN_ok env fin (data.drop 4)
      · exact .other fin
    | some t =>
      obtain ⟨name, known⟩ := t
      cases known with
      | none => trivial
      | some known =>
        exact nameFin_ok env fin (paired_nameCases k (mem_of_find?_eq_some hc) _
          (mem_of_find?_eq_some ht) known rfl) (data.drop name.length)

lemma namePiece_ok (s : NameState) (data : List UInt8) :
    NameRet.Ok fin (namePiece env s data fin) := by
  cases s with
  | hdr => exact nameHdr_ok env fin data
  | seen name => exact nameFrom_ok env fin name data
  | otherN => exact nameOtherN_ok env fin data

lemma paired_of_parseName {env : H2ParserEnv} {s : NameState}
    (h : parseName env s pieces = some (tag, next)) : Paired tag next := by
  induction pieces generalizing s with
  | nil => cases h
  | cons data rest ih =>
    cases rest with
    | nil =>
      have hok := namePiece_ok env true s data
      rw [parseName] at h
      cases hp : namePiece env s data true with
      | ok tag' next' =>
        rw [hp] at h hok
        cases h
        exact hok.2
      | postpone s' =>
        rw [hp] at h
        cases h
      | drop =>
        rw [hp] at h
        cases h
    | cons data' rest =>
      rw [parseName] at h
      · cases hp : namePiece env s data false with
        | ok tag' next' =>
          rw [hp] at h
          cases h
        | postpone s' =>
          rw [hp] at h
          exact ih h
        | drop =>
          rw [hp] at h
          cases h
      · exact nofun

variable {name : FieldName}

lemma paired_of_parse {env : H2ParserEnv} (h : name.parse env = some (tag, s)) :
    Paired tag s := by
  cases name with
  | text pieces => exact paired_of_parseName h
  | indexed t =>
    obtain ⟨s', hs, heq⟩ := Option.map_eq_some_iff.mp h
    cases heq
    exact .inl hs

end Name

lemma h2MsgVerify_fields (req : H2Req) (hid : TfwHttpHdr) :
    (h2MsgVerify req hid).2.filled = req.filled ∧ (h2MsgVerify req hid).2.method = req.method ∧
      (h2MsgVerify req hid).2.contentLength = req.contentLength := by
  unfold h2MsgVerify
  split_ifs
  · exact ⟨rfl, rfl, rfl⟩
  · exact ⟨rfl, rfl, rfl⟩

/-- What parsing a value leaves in the request. -/
structure Parsed (s : H2ValueState) (req req' : H2Req) (value : List (List UInt8)) : Prop where
  filled : req'.filled = req.filled
  hdrTag : req'.hdrTag = s.hid
  method : s ≠ .hdrPsMethodV → req'.method = req.method
  length : s ≠ .hdrContentLengthV → req'.contentLength = req.contentLength
  lengthV : s = .hdrContentLengthV →
    h2ReqParseContentLength req.contentLength value = some req'.contentLength

lemma parseValue_parsed {env : H2ParserEnv} (h : parseValue env s req value = some req') :
    Parsed s req req' value := by
  obtain ⟨hfilled, hmethod, hlength⟩ := h2MsgVerify_fields req s.hid
  unfold parseValue at h
  simp only at h
  by_cases hv : (h2MsgVerify req s.hid).1 = true
  · rw [hv] at h
    cases s with
    | hdrPsMethodV =>
      obtain ⟨m, -, rfl⟩ := Option.map_eq_some_iff.mp h
      exact ⟨hfilled, rfl, fun hne => absurd rfl hne, fun _ => hlength, nofun⟩
    | hdrContentLengthV =>
      obtain ⟨n, hn, rfl⟩ := Option.map_eq_some_iff.mp h
      rw [hlength] at hn
      exact ⟨hfilled, rfl, fun _ => hmethod, fun hne => absurd rfl hne, fun _ => hn⟩
    | _ =>
      simp only [Bool.not_true, Bool.false_eq_true, if_false, Option.ite_none_right_eq_some,
        Option.some.injEq] at h
      obtain ⟨-, rfl⟩ := h
      exact ⟨hfilled, rfl, fun _ => hmethod, fun _ => hlength, nofun⟩
  · rw [Bool.not_eq_true] at hv
    rw [hv] at h
    cases h

/-- What `content-length` accepts is its digits, read behind the accumulator. -/
theorem h2ReqParseContentLength_eq (h : h2ReqParseContentLength acc value = some n) :
    (∀ c ∈ value.flatten, isDigit c = true) ∧ n = decimal acc value.flatten := by
  have hlimit : 10 ≤ ulongMax ∧ ulongMax ≤ ulongMax := by
    unfold ulongMax
    omega
  induction value generalizing acc with
  | nil => cases h
  | cons data rest ih =>
    cases hp : parseUlongWs data acc with
    | mk r acc' =>
      cases rest with
      | nil =>
        rw [h2ReqParseContentLength, hp] at h
        cases r with
        | postpone =>
          cases h
          obtain ⟨hdigits, hval, -⟩ := parseUlongFrom_postpone hlimit hp
          rw [flatten_cons, flatten_nil, append_nil]
          exact ⟨hdigits, hval⟩
        | _ => cases h
      | cons data' rest =>
        rw [h2ReqParseContentLength, hp] at h
        · cases r with
          | postpone =>
            obtain ⟨hdigits, hval, -⟩ := parseUlongFrom_postpone hlimit hp
            obtain ⟨hdigits', hval'⟩ := ih h
            rw [flatten_cons, decimal_append, ← hval]
            refine ⟨fun c hc => ?_, hval'⟩
            rcases List.mem_append.mp hc with hc | hc
            · exact hdigits c hc
            · exact hdigits' c hc
          | _ => cases h
        · exact nofun

lemma decimal_eq_self_iff (hne : digits ≠ []) (hdigits : ∀ c ∈ digits, isDigit c = true) :
    decimal acc digits = acc ↔ acc = 0 ∧ ∀ c ∈ digits, c = 48 := by
  have hzero : ∀ c : UInt8, isDigit c = true → c.toNat - 48 = 0 → c = 48 := by
    intro c hc h
    unfold isDigit at hc
    simp only [Bool.and_eq_true, decide_eq_true_eq] at hc
    apply UInt8.toNat_inj.mp
    show c.toNat = 48
    omega
  constructor
  · intro h
    have hacc : acc = 0 := by
      cases digits with
      | nil => exact absurd rfl hne
      | cons c digits =>
        have := le_decimal (acc * 10 + (c.toNat - 48)) digits
        rw [decimal_cons] at h
        omega
    subst hacc
    refine ⟨rfl, ?_⟩
    clear hne
    induction digits with
    | nil => exact nofun
    | cons c digits ih =>
      rw [decimal_cons, Nat.zero_mul, Nat.zero_add] at h
      have hle := le_decimal (c.toNat - 48) digits
      have hc : c.toNat - 48 = 0 := by omega
      rw [hc] at h
      exact List.forall_mem_cons.mpr ⟨hzero c (hdigits c (mem_cons_self ..)) hc,
        ih (fun d hd => hdigits d (mem_cons_of_mem c hd)) h⟩
  · rintro ⟨rfl, hall⟩
    clear hne hdigits
    induction digits with
    | nil => rfl
    | cons c digits ih =>
      rw [decimal_cons, hall c (mem_cons_self ..)]
      exact ih fun d hd => hall d (mem_cons_of_mem c hd)

section Agree

/-- The two requests agree in the header tag, the method and the content length. -/
def SameField (r r' : H2Req) : Prop :=
  r.hdrTag = r'.hdrTag ∧ r.method = r'.method ∧ r.contentLength = r'.contentLength

instance (r r' : H2Req) : Decidable (SameField r r') := by
  unfold SameField
  infer_instance

lemma tfwHttpMsgHdrClose_some (h : tfwHttpMsgHdrClose req = some req') :
    (req.hdrTag.singular && req.hdrTag != .cookie && req.filled req.hdrTag) = false ∧
      SameField req' req := by
  unfold tfwHttpMsgHdrClose at h
  by_cases hdup : (req.hdrTag.singular && req.hdrTag != .cookie && req.filled req.hdrTag) = true
  · rw [if_pos hdup] at h
    cases h
  · rw [if_neg hdup] at h
    cases h
    exact ⟨Bool.not_eq_true _ ▸ hdup, rfl, rfl, rfl⟩

lemma tfwHttpMsgHdrClose_of_tag
    (h : (req.hdrTag.singular && req.hdrTag != .cookie && req.filled req.hdrTag) = false) :
    ∃ req', tfwHttpMsgHdrClose req = some req' ∧ SameField req' req := by
  refine ⟨_, if_neg ?_, rfl, rfl, rfl⟩
  rw [h]
  exact Bool.false_ne_true

variable {f : LiteralField}

lemma decodeLiteral_some {env : H2ParserEnv} (h : decodeLiteral env req f = some (tag, req')) :
    ∃ s req₁, f.name.parse env = some (tag, s) ∧ f.value.flatten ≠ [] ∧
      parseValue env s req f.value = some req₁ ∧ tfwHttpMsgHdrClose req₁ = some req' := by
  obtain ⟨⟨tag', s⟩, hname, h⟩ := Option.bind_eq_some_iff.mp h
  simp only [Option.ite_none_left_eq_some] at h
  obtain ⟨hne, h⟩ := h
  obtain ⟨req₁, hvalue, h⟩ := Option.bind_eq_some_iff.mp h
  obtain ⟨req₂, hclose, h⟩ := Option.bind_eq_some_iff.mp h
  cases h
  exact ⟨s, req₁, hname, hne, hvalue, hclose⟩

lemma tfwHpackHdrSet_dynamic (hindex : hpackStaticEntries < index) (req : H2Req)
    (htag : entry.tag = tag) (hs : Paired tag s) :
    tfwHpackHdrSet index req entry =
      if tag = .h2Method then none else some { req with hdrTag := s.hid } := by
  have h61 : hpackStaticEntries = 61 := rfl
  unfold tfwHpackHdrSet
  rw [if_neg fun h => absurd h.1 (Nat.not_le.mpr hindex), htag]
  rcases hs with hs | ⟨rfl, rfl⟩
  · cases tag with
    | h2Method =>
      simp only [reduceIte]
      rw [if_neg (by omega), if_neg (by omega)]
    | transferEncoding => cases hs
    | _ =>
      cases hs
      rfl
  · rfl

lemma decodeIndexed_dynamic (hindex : hpackStaticEntries < index) (req : H2Req)
    (hfound : tfwHpackFindIndex tbl index = some (some entry)) (htag : entry.tag = tag)
    (hs : Paired tag s) :
    decodeIndexed tbl index req =
      if tag = .h2Method then none else tfwHttpMsgHdrClose { req with hdrTag := s.hid } := by
  unfold decodeIndexed
  rw [hfound]
  simp only
  rw [tfwHpackHdrSet_dynamic hindex req htag hs]
  split_ifs
  · rfl
  · rfl

lemma paired_method (h : Paired tag s) :
    s = .hdrPsMethodV ↔ tag = .h2Method := by
  rcases h with h | ⟨rfl, rfl⟩
  · cases tag <;> cases h <;> decide
  · decide

lemma paired_contentLength (h : Paired tag s) :
    s = .hdrContentLengthV ↔ tag = .contentLength := by
  rcases h with h | ⟨rfl, rfl⟩
  · cases tag <;> cases h <;> decide
  · decide

/-- The content length behind an accepted literal is the one in front of it only if
nothing was read, or only zeros. -/
theorem contentLength_eq_iff (hs : Paired tag s) (hne : value.flatten ≠ [])
    (h : Parsed s req req₁ value) :
    req.contentLength = req₁.contentLength ↔
      (tag = .contentLength → req.contentLength = 0 ∧ ∀ c ∈ value.flatten, c = 48) := by
  by_cases hcl : tag = .contentLength
  · obtain ⟨hdigits, hval⟩ :=
      h2ReqParseContentLength_eq (h.lengthV ((paired_contentLength hs).mpr hcl))
    rw [hval, eq_comm, decimal_eq_self_iff hne hdigits]
    exact ⟨fun h _ => h, fun h => h hcl⟩
  · have hstate : s ≠ .hdrContentLengthV := fun h => hcl ((paired_contentLength hs).mp h)
    exact ⟨fun _ h => absurd h hcl, fun _ => (h.length hstate).symm⟩

/-- Let a literal field have been accepted and added to the dynamic table, and let
it be accepted in a later request too. There a reference to its entry is accepted
with the same result exactly for fields other than `:method`, and for
`content-length` only where its value is zero. -/
theorem indexed_agrees_iff {env : H2ParserEnv} {f : LiteralField} {req₀ req₀' req req' : H2Req}
    {it : TfwMsgParseIter} {tag : TfwHPackTag} {tbl : TfwHPackDTbl} {index : Nat} {last : Bool}
    (hindex : hpackStaticEntries < index)
    (hadded : decodeLiteral env req₀ f = some (it.tag, req₀'))
    (hfound : tfwHpackFindIndex tbl index =
      some (some { tfwHpackSetEntry it with last := last }))
    (hlit : decodeLiteral env req f = some (tag, req')) :
    (∃ r, decodeIndexed tbl index req = some r ∧ SameField r req') ↔
      it.tag ≠ .h2Method ∧
      (it.tag = .contentLength → req.contentLength = 0 ∧ ∀ c ∈ f.value.flatten, c = 48) := by
  obtain ⟨s, req₁, hname, hne, hvalue, hclose⟩ := decodeLiteral_some hlit
  obtain ⟨s₀, _, hname₀, -⟩ := decodeLiteral_some hadded
  obtain ⟨htag, rfl⟩ : it.tag = tag ∧ s₀ = s := by
    rw [hname₀] at hname
    cases hname
    exact ⟨rfl, rfl⟩
  have hs : Paired it.tag s₀ := paired_of_parse hname₀
  have hp := parseValue_parsed hvalue
  obtain ⟨hdup, hsame⟩ := tfwHttpMsgHdrClose_some hclose
  rw [hp.hdrTag, hp.filled] at hdup
  rw [decodeIndexed_dynamic hindex req hfound (show _ = it.tag from rfl) hs]
  by_cases hm : it.tag = .h2Method
  · rw [if_pos hm]
    constructor
    · rintro ⟨r, hr, -⟩
      cases hr
    · rintro ⟨hnot, -⟩
      exact absurd hm hnot
  rw [if_neg hm]
  have hmethod := hp.method fun h => hm ((paired_method hs).mp h)
  obtain ⟨r, hr, hrsame⟩ := @tfwHttpMsgHdrClose_of_tag { req with hdrTag := s₀.hid } hdup
  have hiff := contentLength_eq_iff hs hne hp
  constructor
  · rintro ⟨r', hr', htag', -, hlen⟩
    rw [hr] at hr'
    cases hr'
    rw [hrsame.2.2, hsame.2.2] at hlen
    exact ⟨hm, hiff.mp hlen⟩
  · rintro ⟨-, hzero⟩
    refine ⟨r, hr, ?_, ?_, ?_⟩
    · rw [hrsame.1, hsame.1]
      exact hp.hdrTag.symm
    · rw [hrsame.2.1, hsame.2.1]
      exact hmethod.symm
    · rw [hrsame.2.2, hsame.2.2]
      exact hiff.mpr hzero

/-- A parser that takes every character and every value. -/
def laxEnv : H2ParserEnv where
  token := fun _ => true
  accepts := fun _ _ => true

def plainReq : H2Req where
  filled := fun h => h == .h2Scheme || h == .h2Path || h == .h2Method
  hdrsFull := true
  method := .get
  contentLength := 0
  hdrTag := .h2Path

def literalField (name value : String) : LiteralField :=
  ⟨.text [ofAscii name], [ofAscii value]⟩

def literalIt (name value : String) (tag : TfwHPackTag) : TfwMsgParseIter where
  parsedHdr := ⟨[⟨ofAscii name, false⟩, ⟨ofAscii value, false⟩]⟩
  nmLen := (ofAscii name).length
  nmNum := 1
  tag := tag

/-- The table of a new connection behind its first literal field. -/
def tableWith (it : TfwMsgParseIter) : Option TfwHPackDTbl :=
  (dtblStep (tfwHpackInit 4096) (.addIndex it ⟨true, true, fun _ => none⟩)).map TfwHPack.decTbl

theorem indexed_agrees_acceptHtml :
    ∃ tbl r, tableWith (literalIt "accept" "text/html" .accept) = some tbl ∧
      decodeIndexed tbl 62 plainReq = some r ∧ r.hdrTag = .raw := by
  obtain ⟨req', hlit, htag⟩ : ∃ req',
      decodeLiteral laxEnv plainReq (literalField "accept" "text/html") =
        some (.accept, req') ∧ req'.hdrTag = .raw := ⟨_, rfl, rfl⟩
  obtain ⟨tbl, htbl, hfound⟩ : ∃ tbl,
      tableWith (literalIt "accept" "text/html" .accept) = some tbl ∧
      tfwHpackFindIndex tbl 62 =
        some (some (tfwHpackSetEntry (literalIt "accept" "text/html" .accept))) := ⟨_, rfl, rfl⟩
  obtain ⟨r, hr, hsame⟩ := (@indexed_agrees_iff laxEnv (literalField "accept" "text/html")
    plainReq req' plainReq req' (literalIt "accept" "text/html" .accept) .accept tbl 62 false
    (by decide) hlit hfound hlit).mpr ⟨by decide, fun h => by cases h⟩
  exact ⟨tbl, r, htbl, hr, hsame.1.trans htag⟩

/-- References to entries that literal fields have added: `:method: GET` is not
accepted, and `content-length: 5` leaves the content length at zero. -/
theorem indexed_method_contentLength_differ :
    (∃ tbl, tableWith (literalIt ":method" "GET" .h2Method) = some tbl ∧
      tfwHpackFindIndex tbl 62 =
        some (some (tfwHpackSetEntry (literalIt ":method" "GET" .h2Method))) ∧
      (∃ req', decodeLiteral laxEnv { plainReq with filled := fun _ => false, hdrsFull := false }
        (literalField ":method" "GET") = some (.h2Method, req') ∧ req'.method = .get) ∧
      decodeIndexed tbl 62 { plainReq with filled := fun _ => false, hdrsFull := false } = none) ∧
    (∃ tbl, tableWith (literalIt "content-length" "5" .contentLength) = some tbl ∧
      tfwHpackFindIndex tbl 62 =
        some (some (tfwHpackSetEntry (literalIt "content-length" "5" .contentLength))) ∧
      (∃ req', decodeLiteral laxEnv plainReq (literalField "content-length" "5") =
        some (.contentLength, req') ∧ req'.contentLength = 5) ∧
      ∃ r, decodeIndexed tbl 62 plainReq = some r ∧ r.contentLength = 0) :=
  ⟨⟨_, rfl, rfl, ⟨_, rfl, rfl⟩, rfl⟩, ⟨_, rfl, rfl, ⟨_, rfl, rfl⟩, _, rfl, rfl⟩⟩

end Agree
end Tempesta.Hpack
