import Tempesta.Str

/-!
Cache control: the flags that the parsers and the configuration collect for a request and
for a response, whether a response may be stored, and whether a stored one is still live.
-/

namespace Tempesta.Cache

def ccNoCache : UInt32 := 0x00000001
def ccNoStore : UInt32 := 0x00000002
def ccMaxAge : UInt32 := 0x00000008
def ccMaxStale : UInt32 := 0x00000010
def ccMinFresh : UInt32 := 0x00000020
def ccOifcached : UInt32 := 0x00000040
def ccMustReval : UInt32 := 0x00000100
def ccProxyReval : UInt32 := 0x00000200
def ccPublic : UInt32 := 0x00000400
def ccPrivate : UInt32 := 0x00000800
def ccSMaxage : UInt32 := 0x00001000
def ccIsPresent : UInt32 := 0x0000ffff
def ccPragmaNoCache : UInt32 := 0x00010000
def ccHdrExpires : UInt32 := 0x00040000
def ccHdrAuthorization : UInt32 := 0x00080000
def ccCfgCacheBypass : UInt32 := 0x01000000

/-- The values of the directives are meaningful if the flag is set. -/
structure TfwCacheControl where
  flags : UInt32
  maxAge : Nat
  minFresh : Nat
  maxStale : Nat
  deriving DecidableEq, Repr

/-- `flags & mask` as a condition -/
def ccAny (flags mask : UInt32) : Bool := flags &&& mask != 0

/-- `tfw_cache_status_bydef` -/
def statusBydef (status : Nat) : Bool :=
  status ∈ [200, 203, 204, 300, 301, 404, 405, 410, 414, 501]

def ccReqDontcache : UInt32 := ccCfgCacheBypass ||| ccNoStore

def ccRespDontcache : UInt32 := ccNoStore ||| ccPrivate ||| ccNoCache

def ccRespCacheit : UInt32 := ccHdrExpires ||| ccMaxAge ||| ccSMaxage ||| ccPublic

def ccRespAuthcan : UInt32 := ccSMaxage ||| ccPublic ||| ccMustReval ||| ccProxyReval

/-- `tfw_cache_employ_resp` for the flags of the request and of the response -/
def employResp (req resp : UInt32) (status : Nat) : Bool :=
  if ccAny req ccReqDontcache then false
  else if ccAny resp ccRespDontcache then false
  else if !ccAny req ccIsPresent && ccAny req ccPragmaNoCache then false
  else if !ccAny resp ccIsPresent && ccAny resp ccPragmaNoCache then false
  else if ccAny req ccHdrAuthorization && !ccAny req ccRespAuthcan then false
  else if !ccAny resp ccRespCacheit && !statusBydef status then false
  else true

def uintMax : Int := 4294967295

/-- The times of a `TfwCacheEntry` -/
structure EntryTimes where
  age : Int
  date : Int
  reqTime : Int
  respTime : Int
  lifetime : Int
  deriving DecidableEq, Repr

/-- `tfw_cache_entry_age` -/
def entryAge (now : Int) (ce : EntryTimes) : Int :=
  let apparentAge := max 0 (ce.respTime - ce.date)
  let correctedAge := ce.age + ce.respTime - ce.reqTime
  let initialAge := max apparentAge correctedAge
  initialAge + now - ce.respTime

/-- `tfw_cache_entry_is_live` -/
def entryIsLive (now : Int) (cc : TfwCacheControl) (ce : EntryTimes) : Int :=
  let ceAge := entryAge now ce
  if ce.lifetime ≤ 0 then 0
  else
    let ltFresh :=
      if ccAny cc.flags (ccMaxAge ||| ccMinFresh) then
        min (if ccAny cc.flags ccMaxAge then (cc.maxAge : Int) else uintMax)
          (if ccAny cc.flags ccMinFresh then ce.lifetime - cc.minFresh else uintMax)
      else uintMax
    let ceLifetime :=
      if !ccAny cc.flags ccMaxStale then min ltFresh ce.lifetime
      else min ltFresh (ce.lifetime + cc.maxStale)
    if ceAge < ceLifetime then ceLifetime else 0

lemma entryIsLive_of_lifetime {now : Int} {cc : TfwCacheControl} {ce : EntryTimes}
    (h : ce.lifetime ≤ 0) : entryIsLive now cc ce = 0 := by
  rw [entryIsLive, if_pos h]

end Tempesta.Cache
