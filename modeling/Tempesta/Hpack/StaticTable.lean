import Tempesta.Str

/-!
The HPACK static table and the tags of its entries. Three tags of the response
side share their value with a tag of the request side (`:status` with
`:method`, `etag` with `if-none-match`, `server` with `user-agent`), as in the
enumeration of the source.
-/

namespace Tempesta.Hpack

inductive TfwHPackTag where
  | h2Method
  | h2Scheme
  | h2Authority
  | h2Path
  | accept
  | authorization
  | cacheControl
  | contentLength
  | contentType
  | cookie
  | ifNoneMatch
  | host
  | ifModifiedSince
  | pragma
  | referer
  | xForwardedFor
  | userAgent
  | transferEncoding
  | raw
  deriving DecidableEq, Repr

namespace TfwHPackTag

abbrev h2Status : TfwHPackTag := h2Method
abbrev etag : TfwHPackTag := ifNoneMatch
abbrev server : TfwHPackTag := userAgent

end TfwHPackTag

/-- An entry of the decoder index; `last` marks the last header on a page of
the header pool. -/
structure TfwHPackEntry where
  hdr : TfwStr
  nameLen : Nat
  nameNum : Nat
  tag : TfwHPackTag
  last : Bool
  deriving DecidableEq, Repr

def hpEntryName (name : String) (tag : TfwHPackTag) : TfwHPackEntry where
  hdr := ⟨[⟨ofAscii name, false⟩]⟩
  nameLen := (ofAscii name).length
  nameNum := 1
  tag := tag
  last := false

def hpEntryFull (name value : String) (tag : TfwHPackTag) : TfwHPackEntry where
  hdr := ⟨[⟨ofAscii name, false⟩, ⟨ofAscii value, false⟩]⟩
  nameLen := (ofAscii name).length
  nameNum := 1
  tag := tag
  last := false

def staticTable : List TfwHPackEntry := [
  hpEntryName ":authority" .h2Authority,
  hpEntryFull ":method" "GET" .h2Method,
  hpEntryFull ":method" "POST" .h2Method,
  hpEntryFull ":path" "/" .h2Path,
  hpEntryFull ":path" "/index.html" .h2Path,
  hpEntryFull ":scheme" "http" .h2Scheme,
  hpEntryFull ":scheme" "https" .h2Scheme,
  hpEntryFull ":status" "200" .h2Status,
  hpEntryFull ":status" "204" .h2Status,
  hpEntryFull ":status" "206" .h2Status,
  hpEntryFull ":status" "304" .h2Status,
  hpEntryFull ":status" "400" .h2Status,
  hpEntryFull ":status" "404" .h2Status,
  hpEntryFull ":status" "500" .h2Status,
  hpEntryName "accept-charset" .raw,
  hpEntryFull "accept-encoding" "gzip, deflate" .raw,
  hpEntryName "accept-language" .raw,
  hpEntryName "accept-ranges" .raw,
  hpEntryName "accept" .accept,
  hpEntryName "access-control-allow-origin" .raw,
  hpEntryName "age" .raw,
  hpEntryName "allow" .raw,
  hpEntryName "authorization" .authorization,
  hpEntryName "cache-control" .cacheControl,
  hpEntryName "content-disposition" .raw,
  hpEntryName "content-encoding" .raw,
  hpEntryName "content-language" .raw,
  hpEntryName "content-length" .contentLength,
  hpEntryName "content-location" .raw,
  hpEntryName "content-range" .raw,
  hpEntryName "content-type" .contentType,
  hpEntryName "cookie" .cookie,
  hpEntryName "date" .raw,
  hpEntryName "etag" .etag,
  hpEntryName "expect" .raw,
  hpEntryName "expires" .raw,
  hpEntryName "from" .raw,
  hpEntryName "host" .host,
  hpEntryName "if-match" .raw,
  hpEntryName "if-modified-since" .ifModifiedSince,
  hpEntryName "if-none-match" .ifNoneMatch,
  hpEntryName "if-range" .raw,
  hpEntryName "if-unmodified-since" .raw,
  hpEntryName "last-modified" .raw,
  hpEntryName "link" .raw,
  hpEntryName "location" .raw,
  hpEntryName "max-forwards" .raw,
  hpEntryName "proxy-authenticate" .raw,
  hpEntryName "proxy-authorization" .raw,
  hpEntryName "range" .raw,
  hpEntryName "referer" .referer,
  hpEntryName "refresh" .raw,
  hpEntryName "retry-after" .raw,
  hpEntryName "server" .server,
  hpEntryName "set-cookie" .raw,
  hpEntryName "strict-transport-security" .raw,
  hpEntryName "transfer-encoding" .transferEncoding,
  hpEntryName "user-agent" .userAgent,
  hpEntryName "vary" .raw,
  hpEntryName "via" .raw,
  hpEntryName "www-authenticate" .raw]

def hpackStaticEntries : Nat := 61

end Tempesta.Hpack
