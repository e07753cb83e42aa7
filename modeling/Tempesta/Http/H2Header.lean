import Tempesta.Http.ParseInt
import Tempesta.Hpack.StaticTable

/-!
The HTTP/2 header parser `tfw_h2_parse_req_hdr`. The name of a header selects a
tag and the state in which its value is parsed; the values of `:method` and
`content-length` are parsed here, the parsers of all other values are a parameter
that says which values they accept. A name or a value arrives in one or more
pieces, the last of which is marked.

The states of the parser that wait for the next character of a known name are
named by the characters that have been seen.
-/

namespace Tempesta.Http

open Hpack (TfwHPackTag)

/-- `tfw_http_hdr_t` -/
inductive TfwHttpHdr where
  | h2Method
  | h2Scheme
  | h2Authority
  | h2Path
  | host
  | contentLength
  | contentType
  | userAgent
  | cookie
  | referer
  | ifNoneMatch
  | connection
  | xForwardedFor
  | keepAlive
  | transferEncoding
  | raw
  deriving DecidableEq, Repr

/-- Below `TFW_HTTP_HDR_NONSINGULAR`. -/
def TfwHttpHdr.singular : TfwHttpHdr → Bool
  | connection | xForwardedFor | keepAlive | transferEncoding | raw => false
  | _ => true

/-- Not below `TFW_HTTP_HDR_REGULAR`. -/
def TfwHttpHdr.regular : TfwHttpHdr → Bool
  | h2Method | h2Scheme | h2Authority | h2Path => false
  | _ => true

/-- `tfw_http_meth_t` -/
inductive TfwHttpMeth where
  | none
  | copy
  | delete
  | get
  | head
  | lock
  | mkcol
  | move
  | options
  | patch
  | post
  | propfind
  | proppatch
  | put
  | trace
  | unlock
  | purge
  | unknown
  deriving DecidableEq, Repr

/-- What header parsing reads and sets in a request: the slots of the header table
that are taken, the flag `TFW_HTTP_B_H2_HDRS_FULL`, the method, the content length
and the `_hdr_tag` of the parser. -/
structure H2Req where
  filled : TfwHttpHdr → Bool
  hdrsFull : Bool
  method : TfwHttpMeth
  contentLength : Nat
  hdrTag : TfwHttpHdr

def h2MsgVerify (req : H2Req) (hid : TfwHttpHdr) : Bool × H2Req :=
  let dup := hid.singular && hid != .cookie && req.filled hid
  let late := req.hdrsFull && hid == .h2Authority
  if !req.hdrsFull && hid.regular then
    let full := req.filled .h2Method && req.filled .h2Scheme && req.filled .h2Path
    (!dup && !late && full, { req with hdrsFull := full })
  else
    (!dup && !late, req)

/-- The states in which values are parsed. -/
inductive H2ValueState where
  | hdrPsMethodV
  | hdrPsSchemeV
  | hdrPsPathV
  | hdrPsAuthorityV
  | hdrAcceptV
  | hdrAuthorizationV
  | hdrCacheControlV
  | hdrContentLengthV
  | hdrContentTypeV
  | hdrHostV
  | hdrIfNoneMatchV
  | hdrIfModifiedSinceV
  | hdrPragmaV
  | hdrRefererV
  | hdrUserAgentV
  | hdrCookieV
  | hdrXForwardedForV
  | hdrXMethodOverrideV
  | hdrOtherV
  deriving DecidableEq, Repr

def H2ValueState.hid : H2ValueState → TfwHttpHdr
  | hdrPsMethodV => .h2Method
  | hdrPsSchemeV => .h2Scheme
  | hdrPsPathV => .h2Path
  | hdrPsAuthorityV => .h2Authority
  | hdrAcceptV => .raw
  | hdrAuthorizationV => .raw
  | hdrCacheControlV => .raw
  | hdrContentLengthV => .contentLength
  | hdrContentTypeV => .contentType
  | hdrHostV => .host
  | hdrIfNoneMatchV => .ifNoneMatch
  | hdrIfModifiedSinceV => .raw
  | hdrPragmaV => .raw
  | hdrRefererV => .referer
  | hdrUserAgentV => .userAgent
  | hdrCookieV => .cookie
  | hdrXForwardedForV => .xForwardedFor
  | hdrXMethodOverrideV => .raw
  | hdrOtherV => .raw

/-- `__FSM_H2_REQ_NEXT_STATE` -/
def reqNextState : TfwHPackTag → Option H2ValueState
  | .h2Method => some .hdrPsMethodV
  | .h2Scheme => some .hdrPsSchemeV
  | .h2Authority => some .hdrPsAuthorityV
  | .h2Path => some .hdrPsPathV
  | .accept => some .hdrAcceptV
  | .authorization => some .hdrAuthorizationV
  | .cacheControl => some .hdrCacheControlV
  | .contentLength => some .hdrContentLengthV
  | .contentType => some .hdrContentTypeV
  | .cookie => some .hdrCookieV
  | .host => some .hdrHostV
  | .ifModifiedSince => some .hdrIfModifiedSinceV
  | .ifNoneMatch => some .hdrIfNoneMatchV
  | .pragma => some .hdrPragmaV
  | .referer => some .hdrRefererV
  | .xForwardedFor => some .hdrXForwardedForV
  | .userAgent => some .hdrUserAgentV
  | .raw => some .hdrOtherV
  | .transferEncoding => none

/-- The configured alphabet of tokens, and which values the parsers of the other
headers accept. -/
structure H2ParserEnv where
  token : UInt8 → Bool
  accepts : H2ValueState → List (List UInt8) → Bool

/-- `RGen_Hdr`, a state of the slow path, `RGen_HdrOtherN`. -/
inductive NameState where
  | hdr
  | seen (name : List UInt8)
  | otherN
  deriving DecidableEq, Repr

inductive NameRet where
  | ok (tag : TfwHPackTag) (next : H2ValueState)
  | postpone (s : NameState)
  | drop
  deriving DecidableEq, Repr

/-- A name that the parser knows. -/
structure KnownName where
  name : List UInt8
  tag : TfwHPackTag
  next : H2ValueState
  /-- The state for more characters in the next piece. -/
  more : NameState

/-- `__FSM_H2_TX_AF_FIN` -/
def finName (name : String) (tag : TfwHPackTag) (next : H2ValueState) : KnownName :=
  ⟨ofAscii name, tag, next, .otherN⟩

def knownNames : List KnownName :=
  [finName ":authority" .h2Authority .hdrPsAuthorityV,
   finName ":method" .h2Method .hdrPsMethodV,
   finName ":path" .h2Path .hdrPsPathV,
   finName ":scheme" .h2Scheme .hdrPsSchemeV,
   finName "accept" .accept .hdrAcceptV,
   finName "authorization" .authorization .hdrAuthorizationV,
   finName "cache-control" .cacheControl .hdrCacheControlV,
   finName "content-length" .contentLength .hdrContentLengthV,
   finName "content-type" .contentType .hdrContentTypeV,
   finName "host" .host .hdrHostV,
   finName "if-modified-since" .ifModifiedSince .hdrIfModifiedSinceV,
   finName "if-none-match" .ifNoneMatch .hdrIfNoneMatchV,
   finName "pragma" .pragma .hdrPragmaV,
   finName "referer" .referer .hdrRefererV,
   finName "x-forwarded-for" .xForwardedFor .hdrXForwardedForV,
   finName "x-method-override" .raw .hdrXMethodOverrideV,
   { finName "x-http-method" .raw .hdrXMethodOverrideV with
      more := .seen (ofAscii "x-http-method") },
   finName "x-http-method-override" .raw .hdrXMethodOverrideV,
   finName "user-agent" .userAgent .hdrUserAgentV,
   finName "cookie" .cookie .hdrCookieV]

def dropNames : List (List UInt8) :=
  [ofAscii "connection", ofAscii "keep-alive", ofAscii "transfer-encoding"]

/-- There is a state of the slow path for these characters. -/
def isNamePart (seen : List UInt8) : Bool :=
  knownNames.any (fun k => seen.isPrefixOf k.name) || dropNames.any (fun n => seen.isPrefixOf n)

/-- `RGen_HdrOtherN` -/
def nameOtherN (env : H2ParserEnv) (fin : Bool) (data : List UInt8) : NameRet :=
  if !data.all env.token then .drop
  else if !fin then .postpone .otherN
  else .ok .raw .hdrOtherV

/-- `__FSM_H2_FIN`, behind the name. -/
def nameFin (env : H2ParserEnv) (fin : Bool) (k : KnownName) (data : List UInt8) : NameRet :=
  if data ≠ [] then nameOtherN env fin data
  else if !fin then .postpone k.more
  else .ok k.tag k.next

def nameFrom (env : H2ParserEnv) (fin : Bool) (seen : List UInt8) : List UInt8 → NameRet
  | [] => if !fin then .postpone (.seen seen) else .ok .raw .hdrOtherV
  | c :: data =>
    let seen' := seen ++ [c]
    match knownNames.find? fun k => k.name == seen' with
    | some k => nameFin env fin k data
    | none =>
      if dropNames.contains seen' then .drop
      else if isNamePart seen' then nameFrom env fin seen' data
      else if seen = [] then
        if data ≠ [] then nameOtherN env fin data
        else if !fin then .postpone .otherN
        else .ok .raw .hdrOtherV
      else if seen.head? = some 58 then .drop
      else nameOtherN env fin (c :: data)

/-- One case of the switch in `RGen_Hdr` on the first four characters: how much
data the comparison needs, the names it compares (`none` drops the request), and
whether it is about pseudo-headers, of which no others are allowed. -/
structure NameCase where
  first : List UInt8
  need : Nat
  tries : List (List UInt8 × Option KnownName)
  pseudo : Bool

def nameTry (name : String) (tag : TfwHPackTag) (next : H2ValueState) :
    List UInt8 × Option KnownName :=
  (ofAscii name, some (finName name tag next))

def nameCases : List NameCase :=
  [⟨ofAscii ":aut", 10, [nameTry ":authority" .h2Authority .hdrPsAuthorityV], true⟩,
   ⟨ofAscii ":met", 7, [nameTry ":method" .h2Method .hdrPsMethodV], true⟩,
   ⟨ofAscii ":sch", 7, [nameTry ":scheme" .h2Scheme .hdrPsSchemeV], true⟩,
   ⟨ofAscii ":pat", 5, [nameTry ":path" .h2Path .hdrPsPathV], true⟩,
   ⟨ofAscii "acce", 6, [nameTry "accept" .accept .hdrAcceptV], false⟩,
   ⟨ofAscii "auth", 13, [nameTry "authorization" .authorization .hdrAuthorizationV], false⟩,
   ⟨ofAscii "cach", 13, [nameTry "cache-control" .cacheControl .hdrCacheControlV], false⟩,
   ⟨ofAscii "conn", 9, [(ofAscii "connectin", none)], false⟩,
   ⟨ofAscii "cont", 14, [nameTry "content-type" .contentType .hdrContentTypeV,
      nameTry "content-length" .contentLength .hdrContentLengthV], false⟩,
   ⟨ofAscii "cook", 6, [nameTry "cookie" .cookie .hdrCookieV], false⟩,
   ⟨ofAscii "host", 4, [nameTry "host" .host .hdrHostV], false⟩,
   ⟨ofAscii "if-m", 17, [nameTry "if-modified-since" .ifModifiedSince .hdrIfModifiedSinceV], false⟩,
   ⟨ofAscii "if-n", 13, [nameTry "if-none-match" .ifNoneMatch .hdrIfNoneMatchV], false⟩,
   ⟨ofAscii "keep", 10, [(ofAscii "keep-alive", none)], false⟩,
   ⟨ofAscii "prag", 6, [nameTry "pragma" .pragma .hdrPragmaV], false⟩,
   ⟨ofAscii "tran", 17, [(ofAscii "transfer-encoding", none)], false⟩,
   ⟨ofAscii "refe", 7, [nameTry "referer" .referer .hdrRefererV], false⟩,
   ⟨ofAscii "user", 10, [nameTry "user-agent" .userAgent .hdrUserAgentV], false⟩,
   ⟨ofAscii "x-fo", 15, [nameTry "x-forwarded-for" .xForwardedFor .hdrXForwardedForV], false⟩,
   ⟨ofAscii "x-ht", 22, [nameTry "x-http-method-override" .raw .hdrXMethodOverrideV,
      nameTry "x-http-method" .raw .hdrXMethodOverrideV], false⟩,
   ⟨ofAscii "x-me", 17, [nameTry "x-method-override" .raw .hdrXMethodOverrideV], false⟩]

/-- `RGen_Hdr` -/
def nameHdr (env : H2ParserEnv) (fin : Bool) (data : List UInt8) : NameRet :=
  if data.length < 4 then nameFrom env fin [] data
  else
    match nameCases.find? fun k => k.first.isPrefixOf data with
    | none => nameOtherN env fin data
    | some k =>
      if data.length < k.need then nameFrom env fin k.first (data.drop 4)
      else
        match k.tries.find? fun t => t.1.isPrefixOf data with
        | some (name, some known) => nameFin env fin known (data.drop name.length)
        | some (_, none) => .drop
        | none =>
          if k.pseudo then .drop
          else if data.drop 4 ≠ [] then nameOtherN env fin (data.drop 4)
          else if !fin then .postpone .otherN
          else .ok .raw .hdrOtherV

/-- The name part of `tfw_h2_parse_req_hdr`. -/
def namePiece (env : H2ParserEnv) (s : NameState) (data : List UInt8) (fin : Bool) : NameRet :=
  match s with
  | .hdr => nameHdr env fin data
  | .seen name => nameFrom env fin name data
  | .otherN => nameOtherN env fin data

def parseName (env : H2ParserEnv) : NameState → List (List UInt8) →
    Option (TfwHPackTag × H2ValueState)
  | _, [] => none
  | s, [data] =>
    match namePiece env s data true with
    | .ok tag next => some (tag, next)
    | _ => none
  | s, data :: rest =>
    match namePiece env s data false with
    | .postpone s' => parseName env s' rest
    | _ => none

/-- `Req_HdrPsMethodV`, a state of the slow path, `Req_MethodUnknown`. -/
inductive MethodState where
  | hdrPsMethodV
  | seen (method : List UInt8)
  | unknown
  deriving DecidableEq, Repr

inductive MethodRet where
  | complete (m : TfwHttpMeth)
  | postpone (s : MethodState)
  | drop
  deriving DecidableEq, Repr

def methodName (name : String) (m : TfwHttpMeth) : List UInt8 × TfwHttpMeth := (ofAscii name, m)

def methods : List (List UInt8 × TfwHttpMeth) :=
  [methodName "GET" .get, methodName "POST" .post, methodName "PATCH" .patch,
   methodName "PROPFIND" .propfind, methodName "PROPPATCH" .proppatch, methodName "PUT" .put,
   methodName "PURGE" .purge, methodName "HEAD" .head, methodName "COPY" .copy,
   methodName "DELETE" .delete, methodName "LOCK" .lock, methodName "MKCOL" .mkcol,
   methodName "MOVE" .move, methodName "OPTIONS" .options, methodName "TRACE" .trace,
   methodName "UNLOCK" .unlock]

/-- `Req_MethodUnknown` -/
def methodUnknown (env : H2ParserEnv) (fin : Bool) (data : List UInt8) : MethodRet :=
  if !data.all env.token then .drop
  else if !fin then .postpone .unknown
  else .complete .unknown

/-- `__FSM_H2_METHOD_COMPLETE`, behind the name. -/
def methodComplete (env : H2ParserEnv) (fin : Bool) (m : TfwHttpMeth) (data : List UInt8) :
    MethodRet :=
  if data ≠ [] then methodUnknown env fin data
  else if !fin then .postpone .unknown
  else .complete m

/-- The slow path, from `Req_Method_1CharStep` on. -/
def methodFrom (env : H2ParserEnv) (fin : Bool) (seen : List UInt8) : List UInt8 → MethodRet
  | [] => if !fin then .postpone (.seen seen) else .complete .unknown
  | c :: data =>
    let seen' := seen ++ [c]
    match methods.find? fun m => m.1 == seen' with
    | some m => methodComplete env fin m.2 data
    | none =>
      if methods.any fun m => seen'.isPrefixOf m.1 then methodFrom env fin seen' data
      else methodUnknown env fin (c :: data)

/-- `Req_RareMethods_3` to `Req_RareMethods_7`: the methods of a length. -/
def rareMethods : List (Nat × List (List UInt8 × TfwHttpMeth)) :=
  [(3, [methodName "PUT" .put]),
   (4, [methodName "HEAD" .head, methodName "COPY" .copy, methodName "LOCK" .lock,
      methodName "MOVE" .move]),
   (5, [methodName "PURGE" .purge, methodName "MKCOL" .mkcol, methodName "PATCH" .patch,
      methodName "TRACE" .trace]),
   (6, [methodName "DELETE" .delete, methodName "UNLOCK" .unlock]),
   (7, [methodName "OPTIONS" .options])]

/-- `Req_RareMethods` -/
def methodProp (env : H2ParserEnv) (fin : Bool) (data : List UInt8) : MethodRet :=
  if data.length < 8 then methodFrom env fin [] data
  else if !(ofAscii "PROP").isPrefixOf data then methodUnknown env fin data
  else
    let data := data.drop 4
    if (ofAscii "FIND").isPrefixOf data then methodComplete env fin .propfind (data.drop 4)
    else if data.length < 5 then methodUnknown env fin data
    else if (ofAscii "PATCH").isPrefixOf data then
      methodComplete env fin .proppatch (data.drop 5)
    else methodUnknown env fin data

def methodRare (env : H2ParserEnv) (fin : Bool) (data : List UInt8) :
    List (Nat × List (List UInt8 × TfwHttpMeth)) → MethodRet
  | [] => methodProp env fin data
  | (n, ms) :: rest =>
    if data.length < n then methodFrom env fin [] data
    else
      match ms.find? fun m => m.1.isPrefixOf data with
      | some m => methodComplete env fin m.2 (data.drop n)
      | none => methodRare env fin data rest

/-- `Req_HdrPsMethodV` -/
def methodHdr (env : H2ParserEnv) (fin : Bool) (data : List UInt8) : MethodRet :=
  if (ofAscii "GET").isPrefixOf data then methodComplete env fin .get (data.drop 3)
  else if (ofAscii "POST").isPrefixOf data then methodComplete env fin .post (data.drop 4)
  else methodRare env fin data rareMethods

def methodPiece (env : H2ParserEnv) (s : MethodState) (data : List UInt8) (fin : Bool) :
    MethodRet :=
  match s with
  | .hdrPsMethodV => methodHdr env fin data
  | .seen method => methodFrom env fin method data
  | .unknown => methodUnknown env fin data

/-- The value of `:method` in pieces. -/
def parseMethod (env : H2ParserEnv) : MethodState → List (List UInt8) → Option TfwHttpMeth
  | _, [] => none
  | s, [data] =>
    match methodPiece env s data true with
    | .complete m => some m
    | _ => none
  | s, data :: rest =>
    match methodPiece env s data false with
    | .postpone s' => parseMethod env s' rest
    | _ => none

/-- `__h2_req_parse_content_length` on a value in pieces: the content length of the
request is the accumulator. -/
def h2ReqParseContentLength (acc : Nat) : List (List UInt8) → Option Nat
  | [] => none
  | [data] =>
    match parseUlongWs data acc with
    | (.postpone, acc') => some acc'
    | _ => none
  | data :: rest =>
    match parseUlongWs data acc with
    | (.postpone, acc') => h2ReqParseContentLength acc' rest
    | _ => none

/-- The value part of `tfw_h2_parse_req_hdr`. The check of the header is repeated
for every piece of some values, with the same answer. -/
def parseValue (env : H2ParserEnv) (s : H2ValueState) (req : H2Req) (value : List (List UInt8)) :
    Option H2Req :=
  let (verified, req) := h2MsgVerify req s.hid
  if !verified then none
  else
    match s with
    | .hdrPsMethodV =>
      (parseMethod env .hdrPsMethodV value).map fun m =>
        { req with method := m, hdrTag := .h2Method }
    | .hdrContentLengthV =>
      (h2ReqParseContentLength req.contentLength value).map fun n =>
        { req with contentLength := n, hdrTag := .contentLength }
    | s => if env.accepts s value then some { req with hdrTag := s.hid } else none

/-- `tfw_http_msg_hdr_close`: a second special header of its kind is blocked, except
for the kinds that may repeat. -/
def tfwHttpMsgHdrClose (req : H2Req) : Option H2Req :=
  let id := req.hdrTag
  if id.singular && id != .cookie && req.filled id then none
  else some { req with filled := fun h => h == id || req.filled h }

end Tempesta.Http
