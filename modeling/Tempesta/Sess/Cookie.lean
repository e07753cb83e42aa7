import Tempesta.Http.Chars
import Tempesta.Str.Alphabet

/-!
The sticky cookie in a `Cookie` header. The parser of the header value cuts it into
chunks with the flags `TFW_STR_NAME` and `TFW_STR_VALUE`; every packet border makes a
border of chunks as well. The search for the sticky cookie runs on these chunks.
-/

namespace Tempesta.Sess

open SpanLib Http
open Str (ByteSet builtinTable)
open List hiding span

/-- `TFW_STR_NAME`, `TFW_STR_VALUE` or no flag -/
inductive ChunkFlag where
  | plain
  | name
  | value
  deriving DecidableEq, Repr

/-- A chunk of the header value -/
structure FlagChunk where
  data : List UInt8
  flag : ChunkFlag
  deriving DecidableEq, Repr

def flat (cs : List FlagChunk) : List UInt8 :=
  (cs.map FlagChunk.data).flatten

@[simp]
lemma flat_nil : flat [] = [] := rfl

variable {c : FlagChunk} {cs : List FlagChunk}

@[simp]
lemma flat_cons : flat (c :: cs) = c.data ++ flat cs := rfl

@[simp]
lemma flat_append (cs' : List FlagChunk) : flat (cs ++ cs') = flat cs ++ flat cs' := by
  rw [flat, map_append, flatten_append]
  rfl

def isCrlfWs (c : UInt8) : Bool := isWs c || isCrlf c

/-- The alphabets of cookie names and values. They may be configured, but not so that
they hold the separators. -/
structure CookieAlphabet where
  token : ByteSet
  cookie : ByteSet
  token_eq : token 0x3d = false
  cookie_semicolon : cookie 0x3b = false
  cookie_end : ∀ c, isCrlfWs c = true → cookie c = false

def builtin : CookieAlphabet where
  token := builtinTable .token
  cookie := builtinTable .cookie
  token_eq := by decide
  cookie_semicolon := by decide
  cookie_end := by
    intro c h
    simp only [isCrlfWs, isWs, isCrlf, Bool.or_eq_true, beq_iff_eq] at h
    rcases h with (rfl | rfl) | (rfl | rfl) <;> decide

/-- The states of `__req_parse_cookie` -/
inductive CookieSt where
  | start
  | name
  | val
  | semicolon
  | sp
  deriving DecidableEq, Repr

/-- `CSTR_NEQ`, `CSTR_POSTPONE` with the state kept in `parser->_i_st`, or the value ends
in this piece of data. -/
inductive CookieRet where
  | neq
  | postpone (st : CookieSt)
  | done
  deriving DecidableEq, Repr

/-- `__FSM_I_MOVE_fixup` -/
def moveFixup (go : CookieSt → List UInt8 → List FlagChunk × CookieRet) (dst : CookieSt) (n : Nat)
    (flag : ChunkFlag) (data : List UInt8) : List FlagChunk × CookieRet :=
  if data.drop n = [] then ([⟨data.take n, flag⟩], .postpone dst)
  else (⟨data.take n, flag⟩ :: (go dst (data.drop n)).1, (go dst (data.drop n)).2)

/-- `__req_parse_cookie` from the state `st` on: the chunks it adds and its result. A state is
left at most twice for each byte. -/
def parseCookieFrom (A : CookieAlphabet) : Nat → CookieSt → List UInt8 → List FlagChunk × CookieRet
  | 0, _, _ => ([], .neq)
  | n + 1, .start, data =>
    let sz := span A.token data
    if sz = data.length then ([⟨data, .name⟩], .postpone .name)
    else if sz ≠ 0 ∧ data[sz]? = some 0x3d then
      moveFixup (parseCookieFrom A n) .val (sz + 1) .name data
    else ([], .neq)
  | n + 1, .name, data =>
    let sz := span A.token data
    if sz = data.length then ([⟨data, .name⟩], .postpone .name)
    else if data[sz]? ≠ some 0x3d then ([], .neq)
    else moveFixup (parseCookieFrom A n) .val (sz + 1) .name data
  | n + 1, .val, data =>
    let sz := span A.cookie data
    let saved := if sz = 0 then [] else [⟨data.take sz, .value⟩]
    if sz = data.length then ([⟨data, .value⟩], .postpone .val)
    else if data[sz]? = some 0x3b then
      let r := parseCookieFrom A n .semicolon (data.drop sz)
      (saved ++ r.1, r.2)
    else if (data[sz]?).any isCrlfWs then (saved, .done)
    else ([], .neq)
  | n + 1, .semicolon, data =>
    if 2 ≤ data.length then
      if data[1]? = some 0x20 then moveFixup (parseCookieFrom A n) .start 2 .plain data
      else ([], .neq)
    else moveFixup (parseCookieFrom A n) .sp 1 .plain data
  | n + 1, .sp, data =>
    if data[0]? ≠ some 0x20 then ([], .neq)
    else moveFixup (parseCookieFrom A n) .start 1 .plain data

/-- `__req_parse_cookie` on one piece of data -/
def reqParseCookie (A : CookieAlphabet) (st : CookieSt) (data : List UInt8) :
    List FlagChunk × CookieRet :=
  parseCookieFrom A (2 * data.length + 2) st data

/-- The chunks of a header value that came in pieces, if it is accepted -/
def parseCookie (A : CookieAlphabet) : CookieSt → List (List UInt8) → Option (List FlagChunk)
  | _, [] => none
  | st, data :: rest =>
    match (reqParseCookie A st data).2 with
    | .neq => none
    | .done => some (reqParseCookie A st data).1
    | .postpone st' => (parseCookie A st' rest).map ((reqParseCookie A st data).1 ++ ·)

/-- `tfw_str_eq_cstr` with `TFW_STR_EQ_PREFIX` on a compound string -/
def strEqCstrPrefix : List FlagChunk → List UInt8 → Bool
  | [], cstr => cstr == []
  | c :: cs, cstr =>
    let len := min cstr.length c.data.length
    if cstr.take len ≠ c.data.take len then false
    else if cstr.length < c.data.length then true
    else strEqCstrPrefix cs (cstr.drop len)

/-- The chunk where the name was found is left out: what is behind it -/
def findName (nameEq : List UInt8) (isRespHdr : Bool) : List FlagChunk → Option (List FlagChunk)
  | [] => none
  | c :: cs =>
    if c.flag ≠ .name then findName nameEq isRespHdr cs
    else if strEqCstrPrefix (c :: cs) nameEq then some cs
    else if isRespHdr then none
    else findName nameEq isRespHdr cs

/-- What `search_cookie` does: no cookie, its value in chunks, or a `BUG_ON` -/
inductive Search where
  | notFound
  | found (val : List FlagChunk)
  | bug
  deriving DecidableEq, Repr

/-- The chunk begins with the character `stop`, if there is one -/
def FlagChunk.stops (stop : Option UInt8) (c : FlagChunk) : Bool :=
  stop.any fun s => c.data.head? == some s

/-- `tfw_str_collect_cmp` -/
def strCollectCmp (stop : Option UInt8) : List FlagChunk → Search
  | [] => .found []
  | c :: rest =>
    if rest = [] ∨ (rest.head?.any (FlagChunk.stops stop)) then .found [c]
    else
      let out := (c :: rest).takeWhile fun d => !d.stops stop
      if out.length < 2 then .bug else .found out

/-- Search cookie value, starting with the chunk behind the name -/
def searchValue (cs : List FlagChunk) : Search :=
  match cs.dropWhile fun c => c.flag ≠ .value with
  | [] => .notFound
  | c :: rest => strCollectCmp (some 0x3b) (c :: rest)

def searchCookie (nameEq : List UInt8) (cookie : List FlagChunk) (isRespHdr : Bool) : Search :=
  match findName nameEq isRespHdr cookie with
  | none => .notFound
  | some cs => searchValue cs

/-- The search gives this value, in any chunks, or nothing where there is none -/
def Search.Gives (r : Search) : Option (List UInt8) → Prop
  | none => r = .notFound
  | some v => ∃ val, r = .found val ∧ flat val = v

variable {r : Search}

lemma Search.Gives.unique {v w : Option (List UInt8)} (hv : r.Gives v) (hw : r.Gives w) :
    v = w := by
  cases v with
  | none =>
    cases w with
    | none => rfl
    | some w =>
      obtain ⟨val, hval, -⟩ := hw
      cases hv.symm.trans hval
  | some v =>
    obtain ⟨val, hval, hflat⟩ := hv
    cases w with
    | none => cases hval.symm.trans hw
    | some w =>
      obtain ⟨val', hval', hflat'⟩ := hw
      cases hval.symm.trans hval'
      rw [← hflat, ← hflat']

/-- A cookie as the sender wrote it: its name with the `=`, in the pieces into which packet
borders cut it, and its value. -/
structure Cookie where
  pieces : List (List UInt8)
  value : List UInt8
  deriving DecidableEq, Repr

/-- The name with the `=` -/
def Cookie.nameEq (k : Cookie) : List UInt8 := k.pieces.flatten

/-- The bytes of a header value, each with a mark on the first one of a packet -/
def tagged (packets : List (List UInt8)) : List (Bool × UInt8) :=
  packets.flatMap fun
    | [] => []
    | b :: bs => (true, b) :: bs.map fun c => (false, c)

/-- What the reader of the header looks at: a name, a value, or the space behind a semicolon -/
inductive Part where
  | name
  | value
  | sp
  deriving DecidableEq, Repr

/-- Another byte in front of the name of the first cookie; `cut`: a packet begins behind it. -/
def pushName (cut : Bool) (b : UInt8) : List Cookie → List Cookie
  | [] => []
  | k :: ks =>
    match cut, k.pieces with
    | false, p :: ps => { k with pieces := (b :: p) :: ps } :: ks
    | _, ps => { k with pieces := [b] :: ps } :: ks

/-- Another byte in front of the value of the first cookie -/
def pushValue (b : UInt8) : List Cookie → List Cookie
  | [] => []
  | k :: ks => { k with value := b :: k.value } :: ks

/-- The cookies of a value `name=value; name=value`, up to the white space or line end
behind it -/
def cookiesFrom : Part → List (Bool × UInt8) → List Cookie
  | _, [] => [⟨[], []⟩]
  | .name, (_, b) :: l =>
    if b = 0x3d then pushName true b (cookiesFrom .value l)
    else pushName (l.head?.any (·.1)) b (cookiesFrom .name l)
  | .value, (_, b) :: l =>
    if b = 0x3b then ⟨[], []⟩ :: cookiesFrom .sp l
    else if isCrlfWs b then [⟨[], []⟩]
    else pushValue b (cookiesFrom .value l)
  | .sp, _ :: l => cookiesFrom .name l

/-- The cookies of a header value that came in packets -/
def cookiesOf (packets : List (List UInt8)) : List Cookie :=
  cookiesFrom .name (tagged packets)

/-- The value of the first cookie with the name and a value that is not empty -/
def wanted (nameEq : List UInt8) (ks : List Cookie) : Option (List UInt8) :=
  (ks.find? fun k => k.nameEq = nameEq ∧ k.value ≠ []).map Cookie.value

def textOf : List Cookie → List UInt8
  | [] => []
  | [k] => k.nameEq ++ k.value
  | k :: ks => k.nameEq ++ (k.value ++ (0x3b :: 0x20 :: textOf ks))

def behindName (w : List UInt8) (ks : List Cookie) : List UInt8 :=
  w ++ if ks = [] then [] else 0x3b :: 0x20 :: textOf ks

/-- At the beginning of one of the pieces of a name the text goes on with `nameEq` -/
def meets (nameEq : List UInt8) : List (List UInt8) → List UInt8 → Bool
  | [], _ => false
  | p :: ps, rest => nameEq.isPrefixOf (p ++ (ps.flatten ++ rest)) || meets nameEq ps rest

/-- The search is exact: the first cookie with a value at or behind the first place, a name's
beginning or a packet border in a name, where the text goes on with `nameEq` has the value
that is wanted from there on. -/
def searchHolds (nameEq : List UInt8) : List Cookie → Bool
  | [] => true
  | k :: ks =>
    if meets nameEq k.pieces (behindName k.value ks) then
      ((k :: ks).find? fun k => k.value ≠ []).all fun d => wanted nameEq (k :: ks) = some d.value
    else searchHolds nameEq ks

/-- The chunks of `; ` -/
inductive Delim : List FlagChunk → Prop
  | whole : Delim [⟨[0x3b, 0x20], .plain⟩]
  | cut : Delim [⟨[0x3b], .plain⟩, ⟨[0x20], .plain⟩]

/-- The chunks `cs` are those of the cookies; of the first one a part may be read already. -/
inductive Laid : List FlagChunk → List Cookie → Prop
  | last : Laid [] [⟨[], []⟩]
  | next {seps cs ks} (hd : Delim seps) (h : Laid cs ks) (hks : ks ≠ []) :
      Laid (seps ++ cs) (⟨[], []⟩ :: ks)
  | value {v w cs ks} (hv : v ≠ []) (hs : 0x3b ∉ v) (h : Laid cs (⟨[], w⟩ :: ks)) :
      Laid (⟨v, .value⟩ :: cs) (⟨[], v ++ w⟩ :: ks)
  | name {p ps w cs ks} (h : Laid cs (⟨ps, w⟩ :: ks)) :
      Laid (⟨p, .name⟩ :: cs) (⟨p :: ps, w⟩ :: ks)

variable {cstr w v data : List UInt8} {ps : List (List UInt8)} {l : List (Bool × UInt8)}
  {b : UInt8}

lemma strEqCstrPrefix_iff : strEqCstrPrefix cs cstr = true ↔ cstr <+: flat cs := by
  induction cs generalizing cstr with
  | nil => simp [strEqCstrPrefix]
  | cons c cs ih =>
    simp only [strEqCstrPrefix, flat_cons]
    rcases Nat.lt_or_ge cstr.length c.data.length with hlt | hge
    · rw [Nat.min_eq_left (Nat.le_of_lt hlt), take_length, if_pos hlt]
      have hpre : cstr <+: c.data ++ flat cs ↔ cstr <+: c.data :=
        ⟨fun h => prefix_of_prefix_length_le h (prefix_append ..) (Nat.le_of_lt hlt),
          fun h => h.trans (prefix_append ..)⟩
      rw [hpre, prefix_iff_eq_take]
      by_cases h : cstr = c.data.take cstr.length
      · rw [if_neg (not_not_intro h)]
        exact iff_of_true rfl h
      · rw [if_pos h]
        exact iff_of_false (by simp) h
    · rw [Nat.min_eq_right hge, take_length, if_neg (Nat.not_lt.mpr hge)]
      by_cases h : cstr.take c.data.length = c.data
      · rw [if_neg (not_not_intro h), ih]
        have hsplit : cstr = c.data ++ cstr.drop c.data.length := by
          conv_lhs => rw [← take_append_drop c.data.length cstr, h]
        conv_rhs => rw [hsplit, prefix_append_right_inj]
      · rw [if_pos h]
        refine iff_of_false (by simp) fun hp => h ?_
        have hle : c.data <+: cstr :=
          prefix_of_prefix_length_le (prefix_append ..) hp hge
        exact (List.prefix_iff_eq_take.mp hle).symm

variable {seps : List FlagChunk}

lemma Delim.flat_eq (h : Delim seps) : flat seps = [0x3b, 0x20] := by
  cases h <;> rfl

variable {ks : List Cookie}

lemma Laid.flat_eq (h : Laid cs ks) : flat cs = textOf ks := by
  induction h with
  | last => rfl
  | @next seps cs ks hd _ hks ih =>
    cases ks with
    | nil => exact absurd rfl hks
    | cons k ks => rw [flat_append, hd.flat_eq, ih]; rfl
  | @value v w cs ks _ _ _ ih =>
    rw [flat_cons, ih]
    cases ks with
    | nil => rfl
    | cons k ks => exact (append_assoc v w _).symm
  | @name p ps w cs ks _ ih =>
    rw [flat_cons, ih]
    cases ks with
    | nil => exact (append_assoc p ps.flatten w).symm
    | cons k ks => exact (append_assoc p ps.flatten _).symm

lemma textOf_cons : textOf (⟨ps, w⟩ :: ks) = ps.flatten ++ behindName w ks := by
  cases ks with
  | nil => rw [behindName, if_pos rfl, append_nil]; rfl
  | cons k ks => rw [behindName, if_neg (by simp)]; rfl

variable {nameEq rest : List UInt8} {n : Nat} {p : ByteSet} {packets : List (List UInt8)}

lemma Laid.takeWhile_flat (h : Laid cs (⟨[], w⟩ :: ks)) :
    flat (cs.takeWhile fun d => !d.stops (some 0x3b)) = w := by
  generalize hk : (⟨[], w⟩ : Cookie) :: ks = l at h
  induction h generalizing w ks with
  | last =>
    cases hk
    rfl
  | next hd =>
    cases hk
    cases hd <;> rfl
  | @value v w' cs ks' hv hs _ ih =>
    cases hk
    have hgo : (!FlagChunk.stops (some 0x3b) ⟨v, .value⟩) = true := by
      cases v with
      | nil => exact absurd rfl hv
      | cons b v =>
        have hb : b ≠ 0x3b := fun e => hs (e ▸ mem_cons_self)
        simpa [FlagChunk.stops] using hb
    have hcons : ((⟨v, .value⟩ :: cs).takeWhile fun d : FlagChunk => !d.stops (some 0x3b)) =
        ⟨v, .value⟩ :: cs.takeWhile fun d => !d.stops (some 0x3b) :=
      takeWhile_cons_of_pos hgo
    rw [hcons, flat_cons, ih rfl]
  | name => cases hk

lemma Laid.collect (hv : v ≠ []) (hs : 0x3b ∉ v) (h : Laid cs (⟨[], w⟩ :: ks)) :
    (strCollectCmp (some 0x3b) (⟨v, .value⟩ :: cs)).Gives (some (v ++ w)) := by
  have hall := (Laid.value hv hs h).takeWhile_flat
  have hw := h.takeWhile_flat
  rw [strCollectCmp]
  split
  next hend =>
    refine ⟨_, rfl, ?_⟩
    have : (cs.takeWhile fun d => !d.stops (some 0x3b)) = [] := by
      rcases hend with rfl | hstop
      · rfl
      · cases cs with
        | nil => rfl
        | cons d ds =>
          have hd : FlagChunk.stops (some 0x3b) d = true := hstop
          exact takeWhile_cons_of_neg (by simp [hd])
    rw [this] at hw
    rw [← hw]
    rfl
  next hgo =>
    simp only [not_or] at hgo
    have hlen : ¬ ((⟨v, .value⟩ :: cs).takeWhile fun d : FlagChunk =>
        !d.stops (some 0x3b)).length < 2 := by
      cases cs with
      | nil => exact absurd rfl hgo.1
      | cons d ds =>
        have hd : FlagChunk.stops (some 0x3b) d = false := by simpa using hgo.2
        cases v with
        | nil => exact absurd rfl hv
        | cons b v =>
          have hb : FlagChunk.stops (some 0x3b) ⟨b :: v, .value⟩ = false := by
            have hne : b ≠ 0x3b := fun e => hs (e ▸ mem_cons_self)
            simpa [FlagChunk.stops] using hne
          rw [takeWhile_cons_of_pos (by simp [hb]), takeWhile_cons_of_pos (by simp [hd])]
          simp
    simp only [if_neg hlen]
    exact ⟨_, rfl, hall⟩

lemma searchValue_skip (h : c.flag ≠ .value) : searchValue (c :: cs) = searchValue cs := by
  rw [searchValue, searchValue, dropWhile_cons_of_pos (by simpa using h)]

lemma searchValue_value :
    searchValue (⟨v, .value⟩ :: cs) = strCollectCmp (some 0x3b) (⟨v, .value⟩ :: cs) := by
  rw [searchValue, dropWhile_cons_of_neg (by simp)]

lemma find_value_congr (ps ps' : List (List UInt8)) (w : List UInt8) (ks : List Cookie) :
    (((⟨ps, w⟩ : Cookie) :: ks).find? fun k => k.value ≠ []).map Cookie.value =
      (((⟨ps', w⟩ : Cookie) :: ks).find? fun k => k.value ≠ []).map Cookie.value := by
  by_cases hw : w = []
  · rw [find?_cons_of_neg (by simp [hw]), find?_cons_of_neg (by simp [hw])]
  · rw [find?_cons_of_pos (by simp [hw]), find?_cons_of_pos (by simp [hw])]
    rfl

lemma Laid.searchValue_gives (h : Laid cs ks) :
    (searchValue cs).Gives ((ks.find? fun k => k.value ≠ []).map Cookie.value) := by
  induction h with
  | last => rfl
  | @next seps cs ks hd h hks ih =>
    rw [find?_cons_of_neg (by simp)]
    cases hd with
    | whole => rwa [singleton_append, searchValue_skip (by simp)]
    | cut =>
      rw [cons_append, cons_append, nil_append, searchValue_skip (by simp),
        searchValue_skip (by simp)]
      exact ih
  | @value v w cs ks hv hs h _ =>
    rw [find?_cons_of_pos (by simp [hv]), searchValue_value]
    exact h.collect hv hs
  | @name p ps w cs ks h ih =>
    rw [searchValue_skip (by simp), find_value_congr (p :: ps) ps]
    exact ih

/-- The search on cookies: from the first place on where the text goes on with the name -/
def found (nameEq : List UInt8) : List Cookie → Option (List UInt8)
  | [] => none
  | k :: ks =>
    if meets nameEq k.pieces (behindName k.value ks) then
      ((k :: ks).find? fun k => k.value ≠ []).map Cookie.value
    else found nameEq ks

lemma searchCookie_skip (h : c.flag ≠ .name) :
    searchCookie nameEq (c :: cs) false = searchCookie nameEq cs false := by
  rw [searchCookie, searchCookie, findName, if_pos h]

lemma searchCookie_name (nameEq p : List UInt8) :
    searchCookie nameEq (⟨p, .name⟩ :: cs) false =
      if strEqCstrPrefix (⟨p, .name⟩ :: cs) nameEq then searchValue cs
      else searchCookie nameEq cs false := by
  rw [searchCookie, findName, if_neg (by simp)]
  by_cases h : strEqCstrPrefix (⟨p, .name⟩ :: cs) nameEq = true
  · rw [if_pos h, if_pos h]
  · rw [if_neg h, if_neg h]
    rfl

/-- `search_cookie` on the chunks is the search on the cookies. -/
theorem Laid.searchCookie_gives (nameEq : List UInt8) (h : Laid cs ks) :
    (searchCookie nameEq cs false).Gives (found nameEq ks) := by
  induction h with
  | last => rfl
  | @next seps cs ks hd h hks ih =>
    have hfound : found nameEq (⟨[], []⟩ :: ks) = found nameEq ks := rfl
    rw [hfound]
    cases hd with
    | whole => rwa [singleton_append, searchCookie_skip (by simp)]
    | cut =>
      rw [cons_append, cons_append, nil_append, searchCookie_skip (by simp),
        searchCookie_skip (by simp)]
      exact ih
  | @value v w cs ks hv hs h ih =>
    rw [searchCookie_skip (by simp)]
    exact ih
  | @name p ps w cs ks h ih =>
    have htext : (strEqCstrPrefix (⟨p, .name⟩ :: cs) nameEq = true) ↔
        nameEq.isPrefixOf (p ++ (ps.flatten ++ behindName w ks)) = true := by
      rw [strEqCstrPrefix_iff, flat_cons, h.flat_eq, textOf_cons, isPrefixOf_iff_prefix]
    rw [searchCookie_name, found]
    by_cases hp : strEqCstrPrefix (⟨p, .name⟩ :: cs) nameEq = true
    · have hm : meets nameEq (p :: ps) (behindName w ks) = true := by
        rw [meets, Bool.or_eq_true]
        exact Or.inl (htext.mp hp)
      rw [if_pos hp, if_pos hm, find_value_congr (p :: ps) ps]
      exact h.searchValue_gives
    · have hm : meets nameEq (p :: ps) (behindName w ks) =
          meets nameEq ps (behindName w ks) := by
        rw [meets, Bool.eq_false_iff.mpr (mt htext.mpr hp), Bool.false_or]
      rw [if_neg hp, hm, find_value_congr (p :: ps) ps]
      exact ih

variable {k : Cookie}

lemma meets_of_nameEq (hne : nameEq ≠ []) (h : k.nameEq = nameEq) :
    meets nameEq k.pieces rest = true := by
  obtain ⟨pieces, w⟩ := k
  cases pieces with
  | nil => exact absurd h.symm hne
  | cons p ps =>
    have hp : nameEq <+: p ++ (ps.flatten ++ rest) := by
      rw [← h, ← append_assoc]
      exact prefix_append ..
    rw [meets, Bool.or_eq_true, isPrefixOf_iff_prefix]
    exact Or.inl hp

lemma wanted_eq_none (h : ks.find? (fun k => k.value ≠ []) = none) : wanted nameEq ks = none := by
  have hall := List.find?_eq_none.mp h
  rw [wanted, List.find?_eq_none.mpr]
  · rfl
  · intro k hk hp
    have := hall k hk
    simp only [decide_eq_true_eq] at hp this
    exact this hp.2

lemma found_eq_wanted_iff (hne : nameEq ≠ []) (ks : List Cookie) :
    found nameEq ks = wanted nameEq ks ↔ searchHolds nameEq ks = true := by
  induction ks with
  | nil => exact iff_of_true rfl rfl
  | cons k ks ih =>
    rw [found, searchHolds]
    by_cases hm : meets nameEq k.pieces (behindName k.value ks) = true
    · rw [if_pos hm, if_pos hm]
      cases hfind : (k :: ks).find? fun k => k.value ≠ [] with
      | none => exact iff_of_true (wanted_eq_none hfind).symm rfl
      | some d =>
        rw [Option.all_some, decide_eq_true_eq]
        exact eq_comm
    · have hname : ¬ (k.nameEq = nameEq ∧ k.value ≠ []) :=
        fun h => hm (meets_of_nameEq hne h.1)
      rw [if_neg hm, if_neg hm, ← ih, wanted, wanted,
        find?_cons_of_neg (by simpa using hname)]

/-- Bytes in the middle of a packet, before `l` -/
def fill (data : List UInt8) (l : List (Bool × UInt8)) : List (Bool × UInt8) :=
  data.map (fun c => (false, c)) ++ l

/-- A packet begins with `l`. -/
def Border (l : List (Bool × UInt8)) : Prop := l.head?.any (·.1) = true

@[simp]
lemma fill_nil : fill [] l = l := rfl

@[simp]
lemma fill_cons : fill (b :: data) l = (false, b) :: fill data l := rfl

/-- Another piece in front of the name of the first cookie -/
def addPiece (p : List UInt8) : List Cookie → List Cookie
  | [] => []
  | k :: ks => { k with pieces := p :: k.pieces } :: ks

def addValue (v : List UInt8) : List Cookie → List Cookie
  | [] => []
  | k :: ks => { k with value := v ++ k.value } :: ks

lemma pushName_true : pushName true b ks = addPiece [b] ks := by
  cases ks <;> rfl

lemma pushName_false (b : UInt8) (p : List UInt8) (ks : List Cookie) :
    pushName false b (addPiece p ks) = addPiece (b :: p) ks := by
  cases ks <;> rfl

lemma pushValue_addValue : pushValue b (addValue v ks) = addValue (b :: v) ks := by
  cases ks <;> rfl

lemma cookiesFrom_name_eq (h : 0x3d ∉ data) : cookiesFrom .name (fill (data ++ 0x3d :: rest) l) =
      addPiece (data ++ [0x3d]) (cookiesFrom .value (fill rest l)) := by
  induction data with
  | nil =>
    rw [nil_append, fill_cons, cookiesFrom, if_pos rfl, pushName_true]
    rfl
  | cons b data ih =>
    have hb : b ≠ 0x3d := fun e => h (e ▸ mem_cons_self)
    have hcut : (fill (data ++ 0x3d :: rest) l).head?.any (·.1) = false := by
      cases data <;> rfl
    rw [cons_append, fill_cons, cookiesFrom, if_neg hb, hcut,
      ih fun hm => h (mem_cons_of_mem _ hm), pushName_false]
    rfl

lemma cookiesFrom_name_border (hd : data ≠ []) (h : 0x3d ∉ data) (hl : Border l) :
    cookiesFrom .name (fill data l) = addPiece data (cookiesFrom .name l) := by
  induction data with
  | nil => exact absurd rfl hd
  | cons b data ih =>
    have hb : b ≠ 0x3d := fun e => h (e ▸ mem_cons_self)
    rw [fill_cons, cookiesFrom, if_neg hb]
    cases data with
    | nil => rw [fill_nil, show l.head?.any (·.1) = true from hl, pushName_true]
    | cons c data =>
      rw [ih (by simp) fun hm => h (mem_cons_of_mem _ hm)]
      exact pushName_false b (c :: data) _

lemma cookiesFrom_value (h : ∀ c ∈ data, c ≠ 0x3b ∧ isCrlfWs c = false) :
    cookiesFrom .value (fill data l) = addValue data (cookiesFrom .value l) := by
  induction data with
  | nil =>
    rw [fill_nil]
    cases cookiesFrom .value l <;> rfl
  | cons b data ih =>
    obtain ⟨hb, hend⟩ := h b mem_cons_self
    rw [fill_cons, cookiesFrom, if_neg hb, if_neg (by simp [hend]),
      ih fun c hc => h c (mem_cons_of_mem _ hc), pushValue_addValue]

lemma cookiesFrom_value_head (l : List (Bool × UInt8)) :
    ∃ w ks, cookiesFrom .value l = ⟨[], w⟩ :: ks := by
  induction l with
  | nil => exact ⟨[], [], rfl⟩
  | cons x l ih =>
    obtain ⟨t, b⟩ := x
    rw [cookiesFrom]
    split
    next => exact ⟨[], _, rfl⟩
    next =>
      split
      next => exact ⟨[], _, rfl⟩
      next =>
        obtain ⟨w, ks, h⟩ := ih
        exact ⟨b :: w, ks, by rw [h]; rfl⟩

lemma cookiesFrom_ne_nil (p : Part) (l : List (Bool × UInt8)) : cookiesFrom p l ≠ [] := by
  have hpush : ∀ {cut b ks}, ks ≠ [] → pushName cut b ks ≠ [] := by
    intro cut b ks h
    cases ks with
    | nil => exact absurd rfl h
    | cons k ks => cases cut <;> cases hk : k.pieces <;> simp [pushName, hk]
  induction l generalizing p with
  | nil => cases p <;> simp [cookiesFrom]
  | cons x l ih =>
    obtain ⟨t, b⟩ := x
    cases p with
    | name =>
      rw [cookiesFrom]
      split
      next => exact hpush (ih _)
      next => exact hpush (ih _)
    | value =>
      obtain ⟨w, ks, h⟩ := cookiesFrom_value_head ((t, b) :: l)
      rw [h]
      simp
    | sp => exact ih .name

lemma Laid.addPiece (p : List UInt8) (h : Laid cs ks) :
    Laid (⟨p, .name⟩ :: cs) (addPiece p ks) := by
  cases ks with
  | nil => cases h
  | cons k ks => exact .name h

lemma Laid.addValue (hv : v ≠ []) (hs : 0x3b ∉ v) (h : Laid cs (cookiesFrom .value l)) :
    Laid (⟨v, .value⟩ :: cs) (addValue v (cookiesFrom .value l)) := by
  obtain ⟨w, ks, hl⟩ := cookiesFrom_value_head l
  rw [hl] at h ⊢
  exact .value hv hs h

/-- The chunks that the parser adds from the state `st` on when the bytes `l` come -/
def Adds : CookieSt → List FlagChunk → List (Bool × UInt8) → Prop
  | .start, cs, l | .name, cs, l => Laid cs (cookiesFrom .name l)
  | .val, cs, l => Laid cs (cookiesFrom .value l)
  | .semicolon, cs, l =>
    ∃ t l' seps cs', l = (t, 0x3b) :: l' ∧ Delim seps ∧ cs = seps ++ cs' ∧
      Laid cs' (cookiesFrom .sp l')
  | .sp, cs, l => ∃ cs', cs = ⟨[0x20], .plain⟩ :: cs' ∧ Laid cs' (cookiesFrom .sp l)

/-- What the chunks `cs` of the later packets `l` are after a result of the parser -/
def Later (l : List (Bool × UInt8)) (cs : List FlagChunk) : CookieRet → Prop
  | .neq => False
  | .done => cs = []
  | .postpone st => Border l ∧ Adds st cs l

variable {go : CookieSt → List UInt8 → List FlagChunk × CookieRet} {flag : ChunkFlag}
  {dst : CookieSt}

lemma moveFixup_adds
    (hgo : ∀ data', data' ≠ [] → Later l cs (go dst data').2 →
      Adds dst ((go dst data').1 ++ cs) (fill data' l))
    (h : Later l cs (moveFixup go dst n flag data).2) :
    ∃ more, (moveFixup go dst n flag data).1 ++ cs = ⟨data.take n, flag⟩ :: more ∧
      Adds dst more (fill (data.drop n) l) := by
  rw [moveFixup] at h ⊢
  by_cases hd : data.drop n = []
  · rw [if_pos hd] at h ⊢
    refine ⟨cs, rfl, ?_⟩
    rw [hd]
    exact h.2
  · rw [if_neg hd] at h ⊢
    exact ⟨_, rfl, hgo _ hd h⟩

lemma span_split (h : span p data ≠ data.length) :
    ∃ a c b, data = a ++ c :: b ∧ (∀ x ∈ a, p x = true) ∧ p c = false ∧ span p data = a.length := by
  induction data with
  | nil => exact absurd rfl h
  | cons x data ih =>
    by_cases hx : p x = true
    · rw [span_cons, if_pos hx] at h ⊢
      obtain ⟨a, c, b, rfl, ha, hc, hlen⟩ := ih fun e => h (by rw [e]; rfl)
      refine ⟨x :: a, c, b, rfl, ?_, hc, by rw [hlen]; rfl⟩
      intro y hy
      rcases List.mem_cons.mp hy with rfl | hy
      · exact hx
      · exact ha y hy
    · exact ⟨[], x, data, rfl, by simp, by simpa using hx, by simp [hx]⟩

lemma span_all (h : span p data = data.length) : ∀ x ∈ data, p x = true := by
  induction data with
  | nil => simp
  | cons x data ih =>
    by_cases hx : p x = true
    · rw [span_cons, if_pos hx, length_cons, Nat.add_right_cancel_iff] at h
      intro y hy
      rcases List.mem_cons.mp hy with rfl | hy
      · exact hx
      · exact ih h y hy
    · simp [hx] at h

section parser
variable {A : CookieAlphabet}

lemma CookieAlphabet.eq_not_mem (h : ∀ x ∈ data, A.token x = true) : 0x3d ∉ data := by
  intro hm
  have := h _ hm
  rw [A.token_eq] at this
  cases this

lemma CookieAlphabet.value_bytes (h : ∀ x ∈ data, A.cookie x = true) :
    ∀ c ∈ data, c ≠ 0x3b ∧ isCrlfWs c = false := by
  intro c hc
  have hcookie := h c hc
  constructor
  · rintro rfl
    rw [A.cookie_semicolon] at hcookie
    cases hcookie
  · rw [← Bool.not_eq_true]
    intro hend
    rw [A.cookie_end c hend] at hcookie
    cases hcookie

lemma adds_name_all (hd : data ≠ []) (h : span A.token data = data.length)
    (hl : Later l cs (.postpone .name)) :
    Laid (⟨data, .name⟩ :: cs) (cookiesFrom .name (fill data l)) := by
  rw [cookiesFrom_name_border hd (A.eq_not_mem (span_all h)) hl.1]
  exact hl.2.addPiece data

lemma adds_name_end
    (hgo : ∀ data', data' ≠ [] → Later l cs (parseCookieFrom A n .val data').2 →
      Adds .val ((parseCookieFrom A n .val data').1 ++ cs) (fill data' l))
    (hsz : span A.token data ≠ data.length) (heq : data[span A.token data]? = some 0x3d)
    (hl : Later l cs (moveFixup (parseCookieFrom A n) .val (span A.token data + 1) .name data).2) :
    Laid ((moveFixup (parseCookieFrom A n) .val (span A.token data + 1) .name data).1 ++ cs)
      (cookiesFrom .name (fill data l)) := by
  obtain ⟨a, c, b, hdata, ha, -, hlen⟩ := span_split hsz
  obtain ⟨more, hmore, hadds⟩ := moveFixup_adds hgo hl
  rw [hmore]
  rw [hlen] at heq hadds ⊢
  subst hdata
  rw [getElem?_append_right (Nat.le_refl _), Nat.sub_self, getElem?_cons_zero] at heq
  cases heq
  have htake : (a ++ 0x3d :: b).take (a.length + 1) = a ++ [0x3d] := by
    rw [take_length_add_append]
    rfl
  have hdrop : (a ++ 0x3d :: b).drop (a.length + 1) = b := by
    rw [drop_length_add_append]
    rfl
  rw [htake, cookiesFrom_name_eq (A.eq_not_mem ha)]
  rw [hdrop] at hadds
  exact Laid.addPiece _ hadds

lemma adds_saved (h : ∀ x ∈ data, A.cookie x = true) (hcs : Laid cs (cookiesFrom .value l)) :
    Laid ((if data.length = 0 then [] else [⟨data, .value⟩]) ++ cs)
      (cookiesFrom .value (fill data l)) := by
  have hbytes := A.value_bytes h
  rw [cookiesFrom_value hbytes]
  cases data with
  | nil =>
    obtain ⟨w, ks, hl⟩ := cookiesFrom_value_head l
    rw [hl] at hcs ⊢
    exact hcs
  | cons b data =>
    rw [if_neg (by simp)]
    exact Laid.addValue (by simp) (fun hm => (hbytes _ hm).1 rfl) hcs

lemma parseCookieFrom_adds (st : CookieSt) (hd : data ≠ [])
    (hsemi : st = .semicolon → data[0]? = some 0x3b)
    (hl : Later l cs (parseCookieFrom A n st data).2) :
    Adds st ((parseCookieFrom A n st data).1 ++ cs) (fill data l) := by
  induction n generalizing st data with
  | zero => cases hl
  | succ n ih =>
    have hgo : ∀ st, st ≠ .semicolon → ∀ data', data' ≠ [] →
        Later l cs (parseCookieFrom A n st data').2 →
        Adds st ((parseCookieFrom A n st data').1 ++ cs) (fill data' l) :=
      fun st hst data' hd' h' => ih st hd' (fun e => absurd e hst) h'
    cases st with
    | start =>
      rw [parseCookieFrom] at hl ⊢
      by_cases hsz : span A.token data = data.length
      · simp only [if_pos hsz] at hl ⊢
        exact adds_name_all hd hsz hl
      · simp only [if_neg hsz] at hl ⊢
        by_cases heq : span A.token data ≠ 0 ∧ data[span A.token data]? = some 0x3d
        · rw [if_pos heq] at hl ⊢
          exact adds_name_end (hgo .val nofun) hsz heq.2 hl
        · rw [if_neg heq] at hl
          cases hl
    | name =>
      rw [parseCookieFrom] at hl ⊢
      by_cases hsz : span A.token data = data.length
      · simp only [if_pos hsz] at hl ⊢
        exact adds_name_all hd hsz hl
      · simp only [if_neg hsz] at hl ⊢
        by_cases heq : data[span A.token data]? = some 0x3d
        · rw [if_neg (not_not_intro heq)] at hl ⊢
          exact adds_name_end (hgo .val nofun) hsz heq hl
        · rw [if_pos heq] at hl
          cases hl
    | val =>
      rw [parseCookieFrom] at hl ⊢
      by_cases hsz : span A.cookie data = data.length
      · simp only [if_pos hsz] at hl ⊢
        have hsaved := adds_saved (span_all hsz) hl.2
        rw [if_neg (by simpa using hd)] at hsaved
        exact hsaved
      · simp only [if_neg hsz] at hl ⊢
        obtain ⟨a, c, b, hdata, ha, -, hlen⟩ := span_split hsz
        rw [hlen] at hl ⊢
        subst hdata
        have hget : (a ++ c :: b)[a.length]? = some c := by
          rw [getElem?_append_right (Nat.le_refl _), Nat.sub_self,
            getElem?_cons_zero]
        have hfill : fill (a ++ c :: b) l = fill a (fill (c :: b) l) := by
          rw [fill, fill, fill, map_append, append_assoc]
        rw [hget, drop_left, take_left] at hl
        rw [hget, drop_left, take_left, hfill]
        by_cases hc : c = 0x3b
        · subst hc
          simp only [if_pos] at hl ⊢
          rw [append_assoc]
          refine adds_saved ha ?_
          obtain ⟨t, l', seps, cs', hl', hdelim, hcs', hlaid⟩ :=
            ih .semicolon (by simp) (fun _ => rfl) hl
          rw [hcs', hl', cookiesFrom, if_pos rfl]
          exact .next hdelim hlaid (cookiesFrom_ne_nil _ _)
        · have hne : some c ≠ some (0x3b : UInt8) := by simpa using hc
          simp only [if_neg hne] at hl ⊢
          by_cases hend : isCrlfWs c = true
          · have hany : (some c).any isCrlfWs = true := hend
            simp only [if_pos hany] at hl ⊢
            refine adds_saved ha ?_
            change cs = [] at hl
            rw [hl, fill_cons, cookiesFrom, if_neg hc, if_pos hend]
            exact .last
          · have hany : ¬ (some c).any isCrlfWs = true := hend
            simp only [if_neg hany] at hl
            cases hl
    | semicolon =>
      cases data with
      | nil => exact absurd rfl hd
      | cons c data =>
        have hc : c = 0x3b := by simpa using hsemi rfl
        subst hc
        rw [parseCookieFrom] at hl ⊢
        by_cases h2 : 2 ≤ (0x3b :: data).length
        · rw [if_pos h2] at hl ⊢
          by_cases hsp : (0x3b :: data)[1]? = some 0x20
          · rw [if_pos hsp] at hl ⊢
            obtain ⟨more, hmore, hadds⟩ := moveFixup_adds (hgo .start nofun) hl
            cases data with
            | nil => cases hsp
            | cons d data =>
              have hd : d = 0x20 := by simpa using hsp
              subst hd
              rw [hmore]
              exact ⟨false, _, _, more, rfl, .whole, rfl, hadds⟩
          · rw [if_neg hsp] at hl
            cases hl
        · rw [if_neg h2] at hl ⊢
          have hnil : data = [] := by
            cases data with
            | nil => rfl
            | cons d data => exact absurd (by simp) h2
          subst hnil
          obtain ⟨more, hmore, cs', hcs', hlaid⟩ := moveFixup_adds (hgo .sp nofun) hl
          rw [hmore, hcs']
          exact ⟨false, _, _, cs', rfl, .cut, rfl, hlaid⟩
    | sp =>
      cases data with
      | nil => exact absurd rfl hd
      | cons c data =>
        rw [parseCookieFrom] at hl ⊢
        by_cases hc : c = 0x20
        · subst hc
          rw [if_neg (by simp)] at hl ⊢
          obtain ⟨more, hmore, hadds⟩ := moveFixup_adds (hgo .start nofun) hl
          exact ⟨more, hmore, hadds⟩
        · rw [if_pos (by simpa using hc)] at hl
          cases hl

lemma moveFixup_ne_semicolon (hgo : ∀ data, (go dst data).2 ≠ .postpone .semicolon)
    (hdst : dst ≠ .semicolon) (k : Nat) :
    (moveFixup go dst k flag data).2 ≠ .postpone .semicolon := by
  rw [moveFixup]
  split
  next => simpa using hdst
  next => exact hgo _

lemma parseCookieFrom_ne_semicolon (st : CookieSt) :
    (parseCookieFrom A n st data).2 ≠ .postpone .semicolon := by
  induction n generalizing st data with
  | zero => nofun
  | succ n ih =>
    have hmove : ∀ {dst flag k}, dst ≠ .semicolon →
        (moveFixup (parseCookieFrom A n) dst k flag data).2 ≠ .postpone .semicolon :=
      fun hdst => moveFixup_ne_semicolon (fun _ => ih _) hdst _
    cases st with
    | start =>
      simp only [parseCookieFrom]
      split_ifs
      · nofun
      · exact hmove nofun
      · nofun
    | name =>
      simp only [parseCookieFrom]
      split_ifs
      · nofun
      · nofun
      · exact hmove nofun
    | val =>
      simp only [parseCookieFrom]
      by_cases hall : span A.cookie data = data.length
      · rw [if_pos hall]
        nofun
      · rw [if_neg hall]
        by_cases hsemi : data[span A.cookie data]? = some 0x3b
        · rw [if_pos hsemi]
          exact ih _
        · rw [if_neg hsemi]
          split <;> nofun
    | semicolon =>
      simp only [parseCookieFrom]
      split_ifs
      · exact hmove nofun
      · nofun
      · exact hmove nofun
    | sp =>
      simp only [parseCookieFrom]
      split_ifs
      · nofun
      · exact hmove nofun

variable {st : CookieSt}

/-- Whether the place where the parser goes on is a packet border makes no difference. -/
theorem adds_tagged (hst : st ≠ .semicolon) (hd : data ≠ [])
    (h : Adds st cs (fill data (tagged packets))) : Adds st cs (tagged (data :: packets)) := by
  cases data with
  | nil => exact absurd rfl hd
  | cons b data =>
    have htag : tagged ((b :: data) :: packets) = (true, b) :: fill data (tagged packets) := rfl
    rw [htag]
    cases st with
    | semicolon => exact absurd rfl hst
    | start | name | val | sp => exact h

lemma tagged_border (hne : [] ∉ packets) (h : packets ≠ []) :
    Border (tagged packets) := by
  cases packets with
  | nil => exact absurd rfl h
  | cons data packets =>
    cases data with
    | nil => exact absurd mem_cons_self hne
    | cons b data => rfl

lemma parseCookie_adds (hst : st ≠ .semicolon) (hne : [] ∉ packets)
    (h : parseCookie A st packets = some cs) : Adds st cs (tagged packets) := by
  induction packets generalizing st cs with
  | nil => cases h
  | cons data packets ih =>
    have hd : data ≠ [] := fun e => hne (e ▸ mem_cons_self)
    have hsemi : st = .semicolon → data[0]? = some 0x3b := fun e => absurd e hst
    rw [parseCookie] at h
    refine adds_tagged hst hd ?_
    cases hr : (reqParseCookie A st data).2 with
    | neq =>
      rw [hr] at h
      cases h
    | done =>
      rw [hr] at h
      cases h
      have hlater : Later (tagged packets) [] (reqParseCookie A st data).2 := by
        rw [hr]
        rfl
      have hadds := parseCookieFrom_adds st hd hsemi hlater
      rw [append_nil] at hadds
      exact hadds
    | postpone st' =>
      rw [hr] at h
      obtain ⟨cs', hcs', rfl⟩ := Option.map_eq_some_iff.mp h
      have hst' : st' ≠ .semicolon := by
        rintro rfl
        exact parseCookieFrom_ne_semicolon st hr
      have hne' : [] ∉ packets := fun hm => hne (mem_cons_of_mem _ hm)
      have hpackets : packets ≠ [] := by
        rintro rfl
        cases hcs'
      refine parseCookieFrom_adds st hd hsemi ?_
      change Later (tagged packets) cs' (reqParseCookie A st data).2
      rw [hr]
      exact ⟨tagged_border hne' hpackets, ih hst' hne' hcs'⟩

end parser

/-- For every header value that the parser accepts, in any packets: the search gives the value
of the first cookie with the configured name and a value, or nothing if there is none, exactly
under `searchHolds`. -/
theorem searchCookie_exact_iff (A : CookieAlphabet) (name : List UInt8)
    (packets : List (List UInt8)) (hne : [] ∉ packets) (cs : List FlagChunk)
    (h : parseCookie A .start packets = some cs) :
    (searchCookie (name ++ [0x3d]) cs false).Gives (wanted (name ++ [0x3d]) (cookiesOf packets)) ↔
      searchHolds (name ++ [0x3d]) (cookiesOf packets) = true := by
  have hstart : CookieSt.start ≠ .semicolon := nofun
  have hlaid : Laid cs (cookiesOf packets) := parseCookie_adds hstart hne h
  have hgives := hlaid.searchCookie_gives (name ++ [0x3d])
  rw [← found_eq_wanted_iff (by simp)]
  constructor
  · intro hw
    exact hgives.unique hw
  · intro heq
    rwa [heq] at hgives

theorem searchCookie_exact_two_packets :
    searchHolds (ofAscii "__tfw=") (cookiesOf
      [ofAscii "a=1; __tf", ofAscii "w=2; b=3\r\n"]) = true ∧
      (searchCookie (ofAscii "__tfw=")
        [⟨ofAscii "a=", .name⟩, ⟨ofAscii "1", .value⟩, ⟨ofAscii "; ", .plain⟩,
          ⟨ofAscii "__tf", .name⟩, ⟨ofAscii "w=", .name⟩, ⟨ofAscii "2", .value⟩,
          ⟨ofAscii "; ", .plain⟩, ⟨ofAscii "b=", .name⟩, ⟨ofAscii "3", .value⟩] false).Gives
        (some (ofAscii "2")) := by
  have hholds : searchHolds (ofAscii "__tfw=")
      (cookiesOf [ofAscii "a=1; __tf", ofAscii "w=2; b=3\r\n"]) = true := by decide +kernel
  refine ⟨hholds, ?_⟩
  exact (searchCookie_exact_iff builtin (ofAscii "__tfw")
    [ofAscii "a=1; __tf", ofAscii "w=2; b=3\r\n"] (by decide) _ (by decide +kernel)).mpr hholds

/-- An empty cookie takes the value of the next one; a name that a packet border cuts is taken
for its second part. -/
theorem foreign_value_found :
    ((parseCookie builtin .start [ofAscii "__tfw=; a=b\r\n"]).map fun cs =>
        searchCookie (ofAscii "__tfw=") cs false) = some (.found [⟨ofAscii "b", .value⟩]) ∧
      wanted (ofAscii "__tfw=") (cookiesOf [ofAscii "__tfw=; a=b\r\n"]) = none ∧
      ((parseCookie builtin .start [ofAscii "my", ofAscii "__tfw=b\r\n"]).map fun cs =>
        searchCookie (ofAscii "__tfw=") cs false) = some (.found [⟨ofAscii "b", .value⟩]) ∧
      wanted (ofAscii "__tfw=") (cookiesOf [ofAscii "my", ofAscii "__tfw=b\r\n"]) = none := by
  decide +kernel

end Tempesta.Sess
