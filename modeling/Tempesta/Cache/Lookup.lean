import Tempesta.Cache.Control
import Tempesta.Http.Chars
import Tempesta.Http.H2Header

/-!
Finding a stored response. The key of an entry is one run of bytes, the URI path and the
host of the request in lower case, spread over the chunks of the record; it is compared
with the strings of a request, which have chunks of their own.
-/

namespace Tempesta.Cache

open List Http

/-- What the cache reads of a request. A string is the list of its chunks, none of them
empty; `host` and `authority` are the values of the `Host` and `:authority` headers, with
no chunks if there is no such header. -/
structure CacheReq where
  isH2 : Bool
  method : TfwHttpMeth
  uriPath : List (List UInt8)
  host : List (List UInt8)
  authority : List (List UInt8)
  cacheCtl : TfwCacheControl
  uriPath_ne : ∀ c ∈ uriPath, c ≠ []
  host_ne : ∀ c ∈ host, c ≠ []

/-- The chunks in the order of `TFW_CACHE_REQ_KEYITER` -/
def CacheReq.keyChunks (req : CacheReq) : List (List UInt8) := req.uriPath ++ req.host

def CacheReq.key (req : CacheReq) : List UInt8 := req.keyChunks.flatten

def CacheReq.site (req : CacheReq) : List UInt8 :=
  if req.isH2 ∧ req.authority.flatten ≠ [] then req.authority.flatten else req.host.flatten

/-- `tfw_http_req_key_calc` of a request that is not made by the health monitor -/
def reqKeyCalc (hashStr : List UInt8 → UInt64) (req : CacheReq) : UInt64 :=
  if req.host.flatten ≠ [] then hashStr req.uriPath.flatten ^^^ hashStr req.host.flatten
  else hashStr req.uriPath.flatten

/-- What is compared and tested of a `TfwCacheEntry`: `trec` is the data in the chunks of
its record behind the entry itself, `method` has four bits. -/
structure TfwCacheEntry where
  keyLen : Nat
  method : Nat
  trec : List (List UInt8)
  times : EntryTimes
  deriving DecidableEq, Repr

/-- `!tfw_cstricmp_2lc` -/
def cstrieq2lc (s1 s2 : List UInt8) : Bool := s1.map tfwLc == s2

/-- The loop of `tfw_cache_entry_key_eq` over the chunks of the request and of the record -/
def keyEqLoop : Nat → Nat → Nat → List (List UInt8) → List (List UInt8) → Bool
  | 0, _, _, _, _ => false
  | _ + 1, _, _, [], _ => true
  | _ + 1, _, _, _ :: _, [] => false
  | fuel + 1, cOff, tOff, c :: cs, t :: ts =>
    let n := min (c.length - cOff) (t.length - tOff)
    if !cstrieq2lc ((c.drop cOff).take n) ((t.drop tOff).take n) then false
    else
      let cOff' := if n = c.length - cOff then 0 else cOff + n
      if n = t.length - tOff then
        if ts ≠ [] ∧ cOff' ≠ 0 then keyEqLoop fuel cOff' 0 (c :: cs) ts
        else keyEqLoop fuel cOff' 0 cs ts
      else keyEqLoop fuel cOff' (tOff + n) cs (t :: ts)

/-- `tfw_cache_entry_key_eq` -/
def entryKeyEq (req : CacheReq) (ce : TfwCacheEntry) : Bool :=
  if req.method ≠ .purge ∧ ce.method ≠ req.method.ctorIdx then false
  else if req.uriPath.flatten.length + req.host.flatten.length ≠ ce.keyLen then false
  else keyEqLoop (req.keyChunks.length + ce.trec.length + 1) 0 0 req.keyChunks ce.trec

/-- The entries of a 64-bit key, in the order of the collision chain: a new entry goes to its
end. -/
abbrev CacheDb := UInt64 → List TfwCacheEntry

/-- `tfw_cache_dbce_get`: the entry, and its place in the chain -/
def dbceGet (hashStr : List UInt8 → UInt64) (db : CacheDb) (req : CacheReq) :
    Option (Nat × TfwCacheEntry) :=
  let chain := db (reqKeyCalc hashStr req)
  let pos := chain.findIdx (entryKeyEq req)
  chain[pos]?.map fun ce => (pos, ce)

/-- The key of an entry is the one of `req`, as `tfw_cache_copy_resp` writes it. -/
structure KeyStored (req : CacheReq) (ce : TfwCacheEntry) : Prop where
  method : ce.method = req.method.ctorIdx % 16
  len : ce.keyLen = req.key.length
  start : req.key.map tfwLc <+: ce.trec.flatten
  chunks : ∀ t ∈ ce.trec, t ≠ []

variable {n : Nat} {c t x y : List UInt8}

lemma map_append_prefix_iff (h : (c.take n).map tfwLc = t.take n) :
    (c ++ x).map tfwLc <+: t ++ y ↔ (c.drop n ++ x).map tfwLc <+: t.drop n ++ y := by
  have hcut : (c ++ x).map tfwLc = t.take n ++ (c.drop n ++ x).map tfwLc := by
    rw [← h, ← map_append, ← append_assoc, take_append_drop]
  have hcut' : t ++ y = t.take n ++ (t.drop n ++ y) := by
    rw [← append_assoc, take_append_drop]
  rw [hcut, hcut', prefix_append_right_inj]

lemma take_eq_of_prefix (hc : n ≤ c.length) (ht : n ≤ t.length)
    (h : (c ++ x).map tfwLc <+: t ++ y) : (c.take n).map tfwLc = t.take n := by
  obtain ⟨z, hz⟩ := h
  have htake := congrArg (List.take n) hz
  rwa [map_append, append_assoc, take_append_of_le_length ht,
    take_append_of_le_length (by rwa [length_map]), ← map_take] at htake

variable {fuel cOff tOff : Nat} {cs ts : List (List UInt8)}

lemma keyEqLoop_differ (hn : n = min (c.length - cOff) (t.length - tOff))
    (h : ((c.drop cOff).take n).map tfwLc ≠ (t.drop tOff).take n) :
    keyEqLoop (fuel + 1) cOff tOff (c :: cs) (t :: ts) = false := by
  subst hn
  rw [keyEqLoop]
  rw [cstrieq2lc, beq_eq_false_iff_ne.mpr h]
  rfl

lemma keyEqLoop_request_over (hle : c.length - cOff ≤ t.length - tOff)
    (h : ((c.drop cOff).take (c.length - cOff)).map tfwLc = (t.drop tOff).take (c.length - cOff)) :
    keyEqLoop (fuel + 1) cOff tOff (c :: cs) (t :: ts) =
      if c.length - cOff = t.length - tOff then keyEqLoop fuel 0 0 cs ts
      else keyEqLoop fuel 0 (tOff + (c.length - cOff)) cs (t :: ts) := by
  rw [keyEqLoop, Nat.min_eq_left hle]
  dsimp only
  rw [cstrieq2lc, h, beq_self_eq_true, Bool.not_true, if_neg Bool.false_ne_true, if_pos rfl,
    if_neg (show ¬ (ts ≠ [] ∧ (0 : Nat) ≠ 0) from fun h => h.2 rfl)]

lemma keyEqLoop_record_over (hlt : t.length - tOff < c.length - cOff) (hoff : tOff < t.length)
    (hts : ts ≠ [])
    (h : ((c.drop cOff).take (t.length - tOff)).map tfwLc = (t.drop tOff).take (t.length - tOff)) :
    keyEqLoop (fuel + 1) cOff tOff (c :: cs) (t :: ts) =
      keyEqLoop fuel (cOff + (t.length - tOff)) 0 (c :: cs) ts := by
  rw [keyEqLoop, Nat.min_eq_right (Nat.le_of_lt hlt)]
  rw [cstrieq2lc, h, beq_self_eq_true, Bool.not_true, if_neg Bool.false_ne_true, if_pos rfl,
    if_neg (Nat.ne_of_lt hlt), if_pos ⟨hts, by omega⟩]

lemma drop_flatten_cons (cs : List (List UInt8)) (h : n ≤ c.length) :
    (c :: cs).flatten.drop n = c.drop n ++ cs.flatten := by
  rw [flatten_cons, drop_append_of_le_length h]

def Inside (off : Nat) : List (List UInt8) → Prop
  | [] => True
  | c :: _ => off < c.length

lemma inside_zero (h : ∀ c ∈ cs, c ≠ []) : Inside 0 cs := by
  cases cs with
  | nil => trivial
  | cons c cs => exact length_pos_iff.mpr (h c mem_cons_self)

lemma keyEqLoop_iff (hfuel : cs.length + ts.length < fuel) (hcs : ∀ c ∈ cs, c ≠ [])
    (hts : ∀ t ∈ ts, t ≠ []) (hc : Inside cOff cs) (ht : Inside tOff ts)
    (hlen : (cs.flatten.drop cOff).length ≤ (ts.flatten.drop tOff).length) :
    keyEqLoop fuel cOff tOff cs ts = true ↔
      (cs.flatten.drop cOff).map tfwLc <+: ts.flatten.drop tOff := by
  induction fuel generalizing cOff tOff cs ts with
  | zero => exact absurd hfuel (Nat.not_lt_zero _)
  | succ fuel ih =>
    cases cs with
    | nil =>
      rw [keyEqLoop, flatten_nil, drop_nil, map_nil]
      exact ⟨fun _ => nil_prefix, fun _ => rfl⟩
    | cons c cs =>
    have hcOff : cOff < c.length := hc
    rw [drop_flatten_cons cs (Nat.le_of_lt hcOff)] at hlen ⊢
    cases ts with
    | nil =>
      rw [flatten_nil, drop_nil, length_append, length_drop,
        length_nil] at hlen
      omega
    | cons t ts =>
    have htOff : tOff < t.length := ht
    rw [drop_flatten_cons ts (Nat.le_of_lt htOff)] at hlen ⊢
    rw [length_append, length_append, length_drop, length_drop] at hlen
    rw [length_cons, length_cons] at hfuel
    have hcs' : ∀ d ∈ cs, d ≠ [] := fun d hd => hcs d (mem_cons_of_mem c hd)
    have hts' : ∀ d ∈ ts, d ≠ [] := fun d hd => hts d (mem_cons_of_mem t hd)
    by_cases heq : ((c.drop cOff).take (min (c.length - cOff) (t.length - tOff))).map tfwLc =
        (t.drop tOff).take (min (c.length - cOff) (t.length - tOff))
    · rw [map_append_prefix_iff heq, drop_drop, drop_drop]
      by_cases hle : c.length - cOff ≤ t.length - tOff
      · rw [Nat.min_eq_left hle] at heq ⊢
        rw [keyEqLoop_request_over hle heq,
          drop_eq_nil_of_le (show c.length ≤ cOff + (c.length - cOff) by omega),
          nil_append]
        by_cases hboth : c.length - cOff = t.length - tOff
        · rw [if_pos hboth,
            drop_eq_nil_of_le (show t.length ≤ tOff + (c.length - cOff) by omega),
            nil_append]
          exact ih (by omega) hcs' hts' (inside_zero hcs') (inside_zero hts')
            (by rw [drop_zero, drop_zero]; omega)
        · rw [if_neg hboth, ← drop_flatten_cons ts (by omega)]
          have hin : Inside (tOff + (c.length - cOff)) (t :: ts) :=
            show tOff + (c.length - cOff) < t.length by omega
          apply ih (by rw [length_cons]; omega) hcs' hts (inside_zero hcs') hin
          rw [drop_zero, drop_flatten_cons ts (by omega), length_append,
            length_drop]
          omega
      · rw [Nat.min_eq_right (by omega)] at heq ⊢
        have hts0 : ts ≠ [] := by
          rintro rfl
          rw [flatten_nil, length_nil] at hlen
          omega
        rw [keyEqLoop_record_over (by omega) htOff hts0 heq,
          drop_eq_nil_of_le (show t.length ≤ tOff + (t.length - tOff) by omega),
          nil_append, ← drop_flatten_cons cs (by omega)]
        have hin : Inside (cOff + (t.length - tOff)) (c :: cs) :=
          show cOff + (t.length - tOff) < c.length by omega
        apply ih (by rw [length_cons]; omega) hcs hts' hin (inside_zero hts')
        rw [drop_zero, drop_flatten_cons cs (by omega), length_append,
          length_drop]
        omega
    · rw [keyEqLoop_differ rfl heq]
      refine ⟨fun h => absurd h Bool.false_ne_true, fun h => absurd ?_ heq⟩
      apply take_eq_of_prefix _ _ h
      · rw [length_drop]
        exact Nat.min_le_left _ _
      · rw [length_drop]
        exact Nat.min_le_right _ _

lemma CacheReq.keyChunks_ne (req : CacheReq) : ∀ c ∈ req.keyChunks, c ≠ [] := by
  intro c hc
  obtain hc | hc := mem_append.mp hc
  · exact req.uriPath_ne c hc
  · exact req.host_ne c hc

lemma CacheReq.key_eq (req : CacheReq) : req.key = req.uriPath.flatten ++ req.host.flatten :=
  flatten_append

variable {ce : TfwCacheEntry} {creator req : CacheReq}

lemma entryKeyEq_iff (h : KeyStored creator ce) :
    entryKeyEq req ce = true ↔
      (req.method = .purge ∨ ce.method = req.method.ctorIdx) ∧
        req.key.map tfwLc = creator.key.map tfwLc := by
  have hlen : req.uriPath.flatten.length + req.host.flatten.length = req.key.length := by
    rw [req.key_eq, length_append]
  rw [entryKeyEq, hlen, h.len]
  by_cases hmeth : req.method ≠ .purge ∧ ce.method ≠ req.method.ctorIdx
  · rw [if_pos hmeth]
    refine ⟨fun h => absurd h Bool.false_ne_true, fun h => absurd h.1 ?_⟩
    exact not_or.mpr hmeth
  have hor : req.method = .purge ∨ ce.method = req.method.ctorIdx := by
    by_contra hnot
    exact hmeth (not_or.mp hnot)
  rw [if_neg hmeth, and_iff_right hor]
  by_cases hkey : req.key.length = creator.key.length
  · rw [if_neg (not_not.mpr hkey), keyEqLoop_iff (Nat.lt_succ_self _) req.keyChunks_ne h.chunks
      (inside_zero req.keyChunks_ne) (inside_zero h.chunks), drop_zero, drop_zero]
    · constructor
      · intro hpre
        obtain hle | hle := prefix_or_prefix_of_prefix hpre h.start
        · exact hle.eq_of_length (by rwa [length_map, length_map])
        · exact (hle.eq_of_length (by rw [length_map, length_map]; exact hkey.symm)).symm
      · intro heq
        exact heq ▸ h.start
    · have hfit := h.start.length_le
      rwa [length_map, ← hkey] at hfit
  · rw [if_pos hkey]
    refine ⟨fun h => absurd h Bool.false_ne_true, fun h => absurd ?_ hkey⟩
    simpa only [length_map] using congrArg List.length h

variable {hashStr : List UInt8 → UInt64} {db : CacheDb} {pos : Nat}

/-- What `tfw_cache_dbce_get` returns is the first entry of the chain with the key. -/
theorem dbceGet_eq_some (h : dbceGet hashStr db req = some (pos, ce)) :
    (db (reqKeyCalc hashStr req))[pos]? = some ce ∧ entryKeyEq req ce = true ∧
      ∀ i < pos, ∀ e, (db (reqKeyCalc hashStr req))[i]? = some e → entryKeyEq req e = false := by
  rw [dbceGet] at h
  obtain ⟨e, he, hpair⟩ := Option.map_eq_some_iff.mp h
  obtain ⟨hpos, rfl⟩ := Prod.mk.inj hpair
  rw [hpos] at he
  obtain ⟨hlt, hget⟩ := List.getElem?_eq_some_iff.mp he
  refine ⟨he, ?_, ?_⟩
  · subst hpos
    rw [← hget]
    exact findIdx_getElem
  · intro i hi e' he'
    obtain ⟨hlt', hget'⟩ := List.getElem?_eq_some_iff.mp he'
    rw [← hget']
    exact not_of_lt_findIdx (hpos ▸ hi)

/-- The two requests are for the same resource of the same site. -/
def SameResource (a b : CacheReq) : Prop :=
  a.uriPath.flatten.map tfwLc = b.uriPath.flatten.map tfwLc ∧ a.site.map tfwLc = b.site.map tfwLc

/-- An entry stored for `creator` is found for `req` only if both are for the same resource. -/
def Separated (creator req : CacheReq) : Prop :=
  ∀ hashStr db pos ce, KeyStored creator ce → dbceGet hashStr db req = some (pos, ce) →
    SameResource creator req

/-- The strings that make up the keys of two requests, one after the other, are the same. -/
def KeyClash (creator req : CacheReq) : Prop :=
  (req.method = .purge ∨ creator.method.ctorIdx % 16 = req.method.ctorIdx) ∧
    req.key.map tfwLc = creator.key.map tfwLc

/-- The entry of `creator` in a record of one chunk. -/
def plainEntry (creator : CacheReq) : TfwCacheEntry where
  keyLen := creator.key.length
  method := creator.method.ctorIdx % 16
  trec := [creator.key.map tfwLc ++ [0]]
  times := ⟨0, 0, 0, 0, 1⟩

lemma plainEntry_stored (creator : CacheReq) : KeyStored creator (plainEntry creator) where
  method := rfl
  len := rfl
  start := by
    rw [plainEntry, flatten_singleton]
    exact prefix_append _ _
  chunks := by
    intro t ht
    rw [mem_singleton.mp ht]
    exact append_ne_nil_of_right_ne_nil _ (cons_ne_nil _ _)

lemma dbceGet_plainEntry (h : KeyClash creator req) :
    dbceGet (fun _ => 0) (fun _ => [plainEntry creator]) req = some (0, plainEntry creator) := by
  have heq := (entryKeyEq_iff (plainEntry_stored creator)).mpr h
  rw [dbceGet]
  simp only [findIdx_cons, heq, cond_true, getElem?_cons_zero, Option.map_some]

theorem separated_iff (creator req : CacheReq) :
    Separated creator req ↔
      (KeyClash creator req → creator.uriPath.flatten.length = req.uriPath.flatten.length ∧
        creator.site.map tfwLc = req.site.map tfwLc) := by
  constructor
  · intro h hclash
    obtain ⟨huri, hsite⟩ := h _ _ _ _ (plainEntry_stored creator) (dbceGet_plainEntry hclash)
    refine ⟨?_, hsite⟩
    simpa only [length_map] using congrArg List.length huri
  · intro h hashStr db pos ce hstored hget
    obtain ⟨-, heq, -⟩ := dbceGet_eq_some hget
    obtain ⟨hmeth, hkey⟩ := (entryKeyEq_iff hstored).mp heq
    rw [hstored.method] at hmeth
    obtain ⟨hlen, hsite⟩ := h ⟨hmeth, hkey⟩
    refine ⟨?_, hsite⟩
    rw [req.key_eq, creator.key_eq, map_append, map_append] at hkey
    have hcut := append_inj hkey (by rw [length_map, length_map, hlen])
    exact hcut.1.symm

/-- An HTTP/2 request of a client for the path `/` of a site. -/
def rootOf (authority : List UInt8) : CacheReq where
  isH2 := true
  method := .get
  uriPath := [ofAscii "/"]
  host := []
  authority := [authority]
  cacheCtl := ⟨0, 0, 0, 0⟩
  uriPath_ne := by decide
  host_ne := by decide

/-- The `:authority` is no part of the key: the page of one site is found for another. -/
theorem other_site_found :
    KeyStored (rootOf (ofAscii "a.example")) (plainEntry (rootOf (ofAscii "a.example"))) ∧
    (∀ hashStr, dbceGet hashStr (fun _ => [plainEntry (rootOf (ofAscii "a.example"))])
      (rootOf (ofAscii "b.example")) = some (0, plainEntry (rootOf (ofAscii "a.example")))) ∧
    ¬ SameResource (rootOf (ofAscii "a.example")) (rootOf (ofAscii "b.example")) := by
  refine ⟨plainEntry_stored _, fun _ => rfl, ?_⟩
  intro h
  exact absurd h.2 (by decide)

end Tempesta.Cache
