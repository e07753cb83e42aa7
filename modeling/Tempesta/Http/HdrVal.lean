import Tempesta.Http.HopByHop

/-!
The values of special headers. The parser keeps the name, the colon, the white space and
the value of a header in chunks of their own; `__http_msg_hdr_val` skips the chunks before
the value. The parser of `Content-Type` in requests other than `POST` passes over the end of
the value without storing it.
-/

namespace Tempesta.Http.HdrVal

open List HopByHop Str

/-- Bytes of a message; the flag says that a fragment ends behind the byte. -/
abbrev Seg := List (UInt8 × Bool)

/-- The chunks of a part of a header: one for each fragment -/
def chunks : Seg → List (List UInt8)
  | [] => []
  | (c, true) :: s => [c] :: chunks s
  | (c, false) :: s =>
    match chunks s with
    | [] => [[c]]
    | d :: ds => (c :: d) :: ds

/-- A header line: the name, and what follows the colon -/
structure Line where
  name : Seg
  rest : Seg
  deriving DecidableEq, Repr

/-- A parser of values: `none` for `CSTR_NEQ`, else a flag for each byte of the value that
says whether the parser ends a chunk behind it -/
abbrev ValParser := List UInt8 → Option (List Bool)

/-- Characters of `ctext_vchar` up to the end of the line -/
def vcharsToEol : ValParser := fun s =>
  let v := s.takeWhile (builtinTable .ctextVchar)
  if (s[v.length]?).any isCrlf then some (v.map fun _ => false) else none

def reqParseUserAgent : ValParser := vcharsToEol

/-- `__req_parse_content_type` takes the whole value in its state `I_EoL`. -/
def inEoL (kind : Kind) (id : TfwHttpHdr) (post : Bool) : Bool :=
  kind = .req && id = .contentType && !post

/-- The bytes of the value that are stored. In `I_EoL` a piece is stored if it fills the
fragment, and left out before the end of the line; elsewhere everything is stored. -/
def stored (eol : Bool) (v : Seg) : Seg := if eol then v.rdropWhile fun x => !x.2 else v

def Line.ows (l : Line) : Seg := l.rest.takeWhile fun x => isWs x.1

def Line.val (l : Line) : Seg := l.rest.dropWhile fun x => isWs x.1

/-- The states `RGen_LWS`, `__TFW_HTTP_PARSE_SPECHDR_VAL`, `RGen_RWS` and `RGen_EoL`; the
chunks of the header, and its value -/
def parseLine (eol : Bool) (func : ValParser) (l : Line) :
    Option (List (List UInt8) × List UInt8) :=
  match (if eol then vcharsToEol else func) (l.val.map (·.1)) with
  | none => none
  | some ends =>
    let rws := (l.val.drop ends.length).dropWhile fun x => isWs x.1
    if rws.head?.any fun x => isCrlf x.1 then
      let v := l.val.zipWith (fun x e => (x.1, x.2 || e)) ends
      some (chunks l.name ++ [ofAscii ":"] ++ chunks l.ows ++ chunks (stored eol v), v.map (·.1))
    else none

/-- A slot of the header table: a header, or the set of its duplicates -/
inductive Entry where
  | one (cs : List (List UInt8))
  | dup (hdrs : List (List (List UInt8)))
  deriving DecidableEq, Repr

def entryOf : List (List (List UInt8) × List UInt8) → Entry
  | [h] => .one h.1
  | hs => .dup (hs.map (·.1))

def hdrLens : Kind → TfwHttpHdr → Nat
  | _, .host => "Host:".length
  | _, .contentLength => "Content-Length:".length
  | _, .contentType => "Content-Type:".length
  | _, .connection => "Connection:".length
  | _, .xForwardedFor => "X-Forwarded-For:".length
  | _, .keepAlive => "Keep-Alive:".length
  | _, .transferEncoding => "Transfer-Encoding:".length
  | _, .referer => "Referer:".length
  | .resp, .userAgent => "Server:".length
  | .resp, .cookie => "Set-Cookie:".length
  | .resp, .ifNoneMatch => "ETag:".length
  | .req, .userAgent => "User-Agent:".length
  | .req, .cookie => "Cookie:".length
  | .req, .ifNoneMatch => "If-None-Match:".length
  | _, _ => 0

/-- The loop of `__http_msg_hdr_val`; `nlen` is only compared with 0. -/
def skip (nlen nchunks : Nat) : List (List UInt8) → Option (List (List UInt8))
  | [] => some []
  | [] :: _ => none
  | (b :: c) :: cs =>
    if 0 < nlen then
      if nchunks < 1 then none else skip (nlen - (b :: c).length) (nchunks - 1) cs
    else if isWs b then
      if nchunks < 1 then none else skip nlen (nchunks - 1) cs
    else some ((b :: c) :: cs)

/-- `__http_msg_hdr_val`; `none` where a `BUG_ON` fires -/
def httpMsgHdrVal (kind : Kind) (id : TfwHttpHdr) : Entry → Option (List (List UInt8))
  | .dup _ => none
  | .one cs =>
    let nlen := hdrLens kind id
    if cs.length ≤ 1 then some []
    else if id = .raw then none
    else if (if id = .host then nlen > cs.flatten.length else nlen ≥ cs.flatten.length : Bool) then
      none
    else skip nlen cs.length cs

/-- The value of the header is found, without a `BUG_ON`. -/
def Extracted (kind : Kind) (id : TfwHttpHdr) (hs : List (List (List UInt8) × List UInt8)) : Prop :=
  ∃ v, httpMsgHdrVal kind id (entryOf hs) = some v ∧ ∀ h ∈ hs, v.flatten = h.2

def InLine (func : ValParser) : Prop :=
  ∀ s ends, func s = some ends → ∀ c ∈ s.take ends.length, isCrlf c = false

def Line.bare (l : Line) : Bool := l.rest.head?.any fun x => isCrlf x.1

/-- The value is empty, or a fragment ends with it. -/
def Line.whole (l : Line) : Bool :=
  (l.val.takeWhile fun x => !isCrlf x.1).getLast?.all (·.2)

theorem chunks_flatten (s : Seg) : (chunks s).flatten = s.map (·.1) := by
  fun_induction chunks s with
  | case1 => rfl
  | case2 c s ih => rw [flatten_cons, ih, map_cons, singleton_append]
  | case3 c s h ih =>
    rw [h] at ih
    rw [map_cons, ← ih]
    rfl
  | case4 c s d ds h ih =>
    rw [h] at ih
    rw [map_cons, ← ih]
    rfl

lemma chunks_heads (s : Seg) : ∀ c ∈ chunks s, ∃ b t, c = b :: t ∧ b ∈ s.map (·.1) := by
  fun_induction chunks s with
  | case1 => exact fun _ h => absurd h not_mem_nil
  | case2 c s ih =>
    intro d hd
    rcases mem_cons.mp hd with rfl | hd
    · exact ⟨c, [], rfl, mem_cons_self⟩
    · obtain ⟨b, t, rfl, hb⟩ := ih d hd
      exact ⟨b, t, rfl, mem_cons_of_mem _ hb⟩
  | case3 c s h ih =>
    intro d hd
    cases mem_singleton.mp hd
    exact ⟨c, [], rfl, mem_cons_self⟩
  | case4 c s d ds h ih =>
    rw [h] at ih
    intro e he
    rcases mem_cons.mp he with rfl | he
    · exact ⟨c, d, rfl, mem_cons_self⟩
    · obtain ⟨b, t, rfl, hb⟩ := ih e (mem_cons_of_mem _ he)
      exact ⟨b, t, rfl, mem_cons_of_mem _ hb⟩

variable {cs ds : List (List UInt8)} {kind : Kind} {h : List (List UInt8) × List UInt8}
  {id : TfwHttpHdr} {name : Name} {ends : List Bool} {eol post : Bool}

lemma skip_name (hne : ∀ c ∈ cs, c ≠ []) :
    skip cs.flatten.length (cs ++ ds).length (cs ++ ds) = skip 0 ds.length ds := by
  induction cs with
  | nil => rfl
  | cons c cs ih =>
    obtain ⟨b, c, rfl⟩ := exists_cons_of_ne_nil (hne c mem_cons_self)
    rw [cons_append, skip, if_pos (by simp), if_neg (by simp), ← ih fun c hc =>
      hne c (mem_cons_of_mem _ hc)]
    congr 1
    simp

lemma skip_ows (hws : ∀ c ∈ cs, ∃ b t, c = b :: t ∧ isWs b = true) :
    skip 0 (cs ++ ds).length (cs ++ ds) = skip 0 ds.length ds := by
  induction cs with
  | nil => rfl
  | cons c cs ih =>
    obtain ⟨b, c, rfl, hb⟩ := hws c mem_cons_self
    rw [cons_append, skip, if_neg (by simp), if_pos hb, if_neg (by simp), ← ih fun c hc =>
      hws c (mem_cons_of_mem _ hc)]
    rfl

variable {s : Seg}

lemma skip_val (hs : ∀ x ∈ s.head?, isWs x.1 = false) :
    skip 0 (chunks s).length (chunks s) = some (chunks s) := by
  cases hc : chunks s with
  | nil => rfl
  | cons c cs =>
    obtain ⟨b, t, rfl, -⟩ := chunks_heads s c (hc ▸ mem_cons_self)
    have hflat := chunks_flatten s
    rw [hc] at hflat
    cases s with
    | nil => cases hflat
    | cons x s =>
      have hb : b = x.1 := (List.cons.inj hflat).1
      rw [skip, if_neg (by simp), if_neg]
      rw [hb, hs x rfl]
      exact Bool.false_ne_true

variable {func : ValParser} {l : Line} {α : Type} {p q : α → Bool} {as : List α}

lemma hdrLens_eq (hslot : slotOf kind name = id) (hid : id ≠ .raw) :
    hdrLens kind id = name.flatten.length + 1 ∧ name.flatten ≠ [] := by
  have hall : ∀ e ∈ hdrs kind, e.2 ≠ .raw → e.1.length = hdrLens kind e.2 ∧ 1 < e.1.length := by
    cases kind <;> decide +kernel
  obtain ⟨hlen, hlt⟩ := hall _ (mem_hdrs_of_slotOf hslot hid) hid
  have hkey : (key name).length = name.flatten.length + 1 := by
    rw [key, length_append, length_map]
    rfl
  rw [hkey] at hlen hlt
  exact ⟨hlen.symm, length_pos_iff.mp (by omega)⟩

lemma parseLine_eq_some (hp : parseLine eol func l = some h) :
    ∃ ends, (if eol then vcharsToEol else func) (l.val.map (·.1)) = some ends ∧
      (((l.val.drop ends.length).dropWhile fun x => isWs x.1).head?.any fun x => isCrlf x.1) ∧
      ∃ v : Seg, v = l.val.zipWith (fun x e => (x.1, x.2 || e)) ends ∧
        h = (chunks l.name ++ [ofAscii ":"] ++ chunks l.ows ++ chunks (stored eol v),
          v.map (·.1)) := by
  rw [parseLine] at hp
  split at hp
  · cases hp
  · rename_i ends hends
    dsimp only at hp
    split at hp
    · rename_i heol
      cases hp
      exact ⟨ends, hends, heol, _, rfl, rfl⟩
    · cases hp

lemma takeWhile_congr_of_stop (hpq : ∀ a, p a = true → q a = true)
    (hstop : ∀ a ∈ as[(as.takeWhile p).length]?, q a = false) :
    as.takeWhile p = as.takeWhile q := by
  induction as with
  | nil => rfl
  | cons a as ih =>
    by_cases hp : p a = true
    · rw [takeWhile_cons_of_pos hp, length_cons, getElem?_cons_succ] at hstop
      rw [takeWhile_cons_of_pos hp, takeWhile_cons_of_pos (hpq a hp), ih hstop]
    · rw [takeWhile_cons_of_neg hp] at hstop
      rw [takeWhile_cons_of_neg hp, takeWhile_cons_of_neg]
      rw [hstop a rfl]
      exact Bool.false_ne_true

lemma zipWith_false (s : Seg) (n : Nat) :
    s.zipWith (fun x e => (x.1, x.2 || e)) (replicate n false) = s.take n := by
  induction s generalizing n with
  | nil => simp
  | cons x s ih =>
    cases n with
    | zero => rfl
    | succ n => rw [replicate_succ, zipWith_cons_cons, ih, Bool.or_false, take_succ_cons]

lemma vchar_not_crlf : ∀ c, builtinTable .ctextVchar c = true → isCrlf c = false :=
  forall_byte (by decide +kernel)

lemma vcharsToEol_takeWhile (h : vcharsToEol (s.map (·.1)) = some ends) :
    s.zipWith (fun x e => (x.1, x.2 || e)) ends = s.takeWhile fun x => !isCrlf x.1 := by
  rw [vcharsToEol] at h
  split at h
  · rename_i hcrlf
    cases h
    have hmap : (s.map (·.1)).takeWhile (builtinTable .ctextVchar) =
        (s.takeWhile fun x => builtinTable .ctextVchar x.1).map (·.1) := takeWhile_map ..
    rw [hmap, length_map] at hcrlf
    rw [hmap, map_const', length_map, zipWith_false,
      ← prefix_iff_eq_take.mp ( takeWhile_prefix _)]
    refine takeWhile_congr_of_stop (fun x hx => by rw [vchar_not_crlf _ hx]; rfl) fun x hx => ?_
    rw [getElem?_map, hx] at hcrlf
    rw [show isCrlf x.1 = true from hcrlf]
    rfl
  · cases h

lemma vcharsToEol_inLine : InLine vcharsToEol := by
  intro s ends h c hc
  rw [vcharsToEol] at h
  split at h
  · cases h
    rw [length_map, ← prefix_iff_eq_take.mp ( takeWhile_prefix _)] at hc
    exact vchar_not_crlf c (all_eq_true.mp all_takeWhile c hc)
  · cases h

lemma stored_prefix (eol : Bool) (v : Seg) : stored eol v <+: v := by
  rw [stored]
  split
  · exact rdropWhile_prefix ..
  · exact prefix_refl v

lemma bare_iff (hfunc : InLine func) (hends : func (l.val.map (·.1)) = some ends)
    (heol : ((l.val.drop ends.length).dropWhile fun x => isWs x.1).head?.any fun x => isCrlf x.1) :
    l.bare = true ↔ l.ows = [] ∧
      l.val.zipWith (fun x e => (x.1, x.2 || e)) ends = [] := by
  have hnotws : ∀ c : UInt8, isCrlf c = true → isWs c = false := forall_byte (by decide +kernel)
  rw [Line.bare]
  constructor
  · intro hbare
    cases hrest : l.rest with
    | nil =>
      rw [hrest] at hbare
      cases hbare
    | cons x rest =>
      rw [hrest] at hbare
      replace hbare : isCrlf x.1 = true := hbare
      have hx := hnotws _ hbare
      have hval : l.val = x :: rest := by rw [Line.val, hrest, dropWhile_cons_of_neg (by simp [hx])]
      refine ⟨by rw [Line.ows, hrest, takeWhile_cons_of_neg (by simp [hx])], ?_⟩
      rw [hval] at hends ⊢
      cases ends with
      | nil => rfl
      | cons e ends =>
        have hno := hfunc _ _ hends x.1 mem_cons_self
        rw [hbare] at hno
        cases hno
  · rintro ⟨hows, hv⟩
    have hrest : l.rest = l.val := by
      have := takeWhile_append_dropWhile (p := fun x : UInt8 × Bool => isWs x.1) (l := l.rest)
      rw [← this, show l.rest.takeWhile (fun x => isWs x.1) = [] from hows]
      rfl
    rcases zipWith_eq_nil_iff.mp hv with hnil | rfl
    · rw [hnil] at heol
      simp at heol
    · rw [length_nil, drop_zero, ← hrest] at heol
      have hdrop : l.rest.dropWhile (fun x => isWs x.1) = l.rest := hrest.symm
      rwa [hdrop] at heol

lemma hdrVal_eq {v : Seg} (hslot : slotOf kind (chunks l.name) = id) (hid : id ≠ .raw)
    (hhead : ∀ x ∈ v.head?, isWs x.1 = false) :
    httpMsgHdrVal kind id (.one (chunks l.name ++ [ofAscii ":"] ++ chunks l.ows ++ chunks v)) =
      if id ≠ .host ∧ l.ows = [] ∧ v = [] then none else some (chunks v) := by
  obtain ⟨hlen, hname⟩ := hdrLens_eq hslot hid
  have hcs : ∀ c ∈ chunks l.name ++ [ofAscii ":"], c ≠ [] := by
    intro c hc
    rcases mem_append.mp hc with hc | hc
    · obtain ⟨b, t, rfl, -⟩ := chunks_heads _ c hc
      exact cons_ne_nil b t
    · rw [mem_singleton.mp hc]
      decide
  have hnlen : (chunks l.name ++ [ofAscii ":"]).flatten.length = hdrLens kind id := by
    rw [hlen, flatten_append, length_append]
    rfl
  have hows : ∀ c ∈ chunks l.ows, ∃ b t, c = b :: t ∧ isWs b = true := by
    intro c hc
    obtain ⟨b, t, rfl, hb⟩ := chunks_heads _ c hc
    obtain ⟨x, hx, rfl⟩ := mem_map.mp hb
    exact ⟨_, t, rfl, all_eq_true.mp (all_takeWhile) x hx⟩
  have hskip : skip (hdrLens kind id)
      (chunks l.name ++ [ofAscii ":"] ++ chunks l.ows ++ chunks v).length
      (chunks l.name ++ [ofAscii ":"] ++ chunks l.ows ++ chunks v) = some (chunks v) := by
    rw [← hnlen, append_assoc, skip_name hcs, skip_ows hows, skip_val hhead]
  have htotal : (chunks l.name ++ [ofAscii ":"] ++ chunks l.ows ++ chunks v).flatten.length =
      hdrLens kind id + (l.ows.length + v.length) := by
    rw [append_assoc, flatten_append, length_append, hnlen, flatten_append,
      chunks_flatten, chunks_flatten, length_append, length_map, length_map]
  have hmany : ¬ (chunks l.name ++ [ofAscii ":"] ++ chunks l.ows ++ chunks v).length ≤ 1 := by
    have hne : chunks l.name ≠ [] := fun hnil => hname (by rw [hnil]; rfl)
    have hpos := length_pos_iff.mpr hne
    simp only [length_append, length_singleton]
    omega
  have hempty : l.ows.length + v.length = 0 ↔ l.ows = [] ∧ v = [] := by
    rw [Nat.add_eq_zero_iff, length_eq_zero_iff, length_eq_zero_iff]
  simp only [httpMsgHdrVal, if_neg hmany, if_neg hid, htotal, hskip]
  by_cases hhost : id = .host
  · rw [if_pos hhost, if_neg (by rw [decide_eq_true_iff]; omega), if_neg fun hc => hc.1 hhost]
  · rw [if_neg hhost]
    by_cases hb : l.ows = [] ∧ v = []
    · rw [if_pos (decide_eq_true (by rw [hempty.mpr hb]; omega)), if_pos ⟨hhost, hb⟩]
    · have hpos : ¬ (hdrLens kind id ≥ hdrLens kind id + (l.ows.length + v.length)) :=
        fun hle => hb (hempty.mp (by omega))
      rw [if_neg (by rw [decide_eq_true_iff]; exact hpos), if_neg fun hc => hb hc.2]

lemma head_not_ws (l : Line) (ends : List Bool) :
    ∀ x ∈ (l.val.zipWith (fun x e => (x.1, x.2 || e)) ends).head?, isWs x.1 = false := by
  cases hval : l.val with
  | nil => exact fun _ hx => absurd hx (by simp)
  | cons x s =>
    have hx := head?_dropWhile_not (fun x : UInt8 × Bool => isWs x.1) l.rest
    rw [show l.rest.dropWhile (fun x => isWs x.1) = x :: s from hval] at hx
    cases ends with
    | nil => exact fun _ hx => absurd hx (by simp)
    | cons e ends =>
      rintro y ⟨⟩
      exact hx

/-- Everything of the value is stored, unless `I_EoL` has left out its last piece. -/
lemma stored_eq_iff {v : Seg} (hends : (if eol then vcharsToEol else func) (l.val.map (·.1)) =
      some ends) (hv : v = l.val.zipWith (fun x e => (x.1, x.2 || e)) ends) :
    stored eol v = v ↔ (eol = true → l.whole = true) := by
  cases eol with
  | false => exact iff_of_true rfl nofun
  | true =>
    rw [vcharsToEol_takeWhile hends] at hv
    rw [stored, if_pos rfl, rdropWhile_eq_self_iff, Line.whole, ← hv]
    cases v using reverseRecOn with
    | nil => simp
    | append_singleton v x _ => simp

lemma extracted_one_iff (hfunc : InLine func) (hslot : slotOf kind (chunks l.name) = id)
    (hid : id ≠ .raw) (hp : parseLine eol func l = some h) :
    Extracted kind id [h] ↔ (id = .host ∨ l.bare = false) ∧ (eol = true → l.whole = true) := by
  obtain ⟨ends, hends, heol, v, hv, rfl⟩ := parseLine_eq_some hp
  have hin : InLine (if eol then vcharsToEol else func) := by
    split
    · exact vcharsToEol_inLine
    · exact hfunc
  have hbare := bare_iff hin hends heol
  rw [← hv] at hbare
  have hpre := stored_prefix eol v
  have hhead : ∀ x ∈ (stored eol v).head?, isWs x.1 = false := by
    intro x hx
    have hws := head_not_ws l ends
    rw [← hv] at hws
    obtain ⟨t, ht⟩ := hpre
    refine hws x ?_
    rw [← ht, head?_append, show (stored eol v).head? = some x from hx]
    rfl
  have hval := hdrVal_eq hslot hid hhead
  have hwhole := stored_eq_iff hends hv
  have hmap : (chunks (stored eol v)).flatten = v.map (·.1) ↔ stored eol v = v := by
    rw [chunks_flatten]
    refine ⟨fun heq => hpre.eq_of_length ?_, fun heq => by rw [heq]⟩
    simpa using congrArg List.length heq
  rw [Extracted, entryOf, hval, ← hwhole]
  constructor
  · rintro ⟨w, hw, hflat⟩
    split_ifs at hw with hbug
    cases hw
    have heq := hmap.mp (hflat _ mem_cons_self)
    rw [heq, ← hbare] at hbug
    refine ⟨?_, heq⟩
    by_contra hno
    rw [not_or, Bool.not_eq_false] at hno
    exact hbug hno
  · rintro ⟨hok, heq⟩
    refine ⟨chunks (stored eol v), if_neg ?_, fun h hh => ?_⟩
    · rw [heq, ← hbare]
      rintro ⟨hhost, hb⟩
      rcases hok with hok | hok
      · exact hhost hok
      · rw [hok] at hb
        cases hb
    · rw [mem_singleton.mp hh]
      exact hmap.mpr heq

/-- The value of a special header of an accepted message is found exactly if the header is
not duplicated, its line does not end right behind the colon (unless it is `Host`), and the
last piece of a `Content-Type` that `I_EoL` takes fills its fragment. -/
theorem extracted_iff (hfunc : InLine func) {ls : List Line}
    {hs : List (List (List UInt8) × List UInt8)} (hne : ls ≠ [])
    (hslot : ∀ l ∈ ls, slotOf kind (chunks l.name) = id) (hid : id ≠ .raw)
    (hparse : ls.mapM (parseLine (inEoL kind id post) func) = some hs) :
    Extracted kind id hs ↔ ls.length = 1 ∧ ∀ l ∈ ls, (id = .host ∨ l.bare = false) ∧
      (inEoL kind id post = true → l.whole = true) := by
  cases ls with
  | nil => exact absurd rfl hne
  | cons l ls =>
    rw [mapM_cons] at hparse
    obtain ⟨h, hp, hrest⟩ := Option.bind_eq_some_iff.mp hparse
    obtain ⟨hs', hps, heq⟩ := Option.bind_eq_some_iff.mp hrest
    cases heq
    cases ls with
    | nil =>
      rw [mapM_nil] at hps
      cases hps
      rw [extracted_one_iff hfunc (hslot l mem_cons_self) hid hp, forall_mem_singleton]
      exact (and_iff_right rfl).symm
    | cons l' ls =>
      rw [mapM_cons] at hps
      obtain ⟨h', -, hrest'⟩ := Option.bind_eq_some_iff.mp hps
      obtain ⟨hs'', -, heq⟩ := Option.bind_eq_some_iff.mp hrest'
      cases heq
      refine iff_of_false ?_ fun hc => absurd hc.1 (by simp)
      rintro ⟨w, hw, -⟩
      cases hw

def inside (s : String) : Seg := (ofAscii s).map fun c => (c, false)

/-- `User-Agent: curl` in two fragments -/
def curlLine : Line :=
  ⟨inside "User-" ++ (0x41, true) :: inside "gent", inside " curl\r\n"⟩

theorem extracted_curl :
    ∃ h, parseLine false reqParseUserAgent curlLine = some h ∧ Extracted .req .userAgent [h] := by
  have hsome : (parseLine false reqParseUserAgent curlLine).isSome := by decide +kernel
  obtain ⟨h, hp⟩ := Option.isSome_iff_exists.mp hsome
  have hslot : ∀ l ∈ [curlLine], slotOf .req (chunks l.name) = .userAgent := by decide +kernel
  have hparse : [curlLine].mapM (parseLine (inEoL .req .userAgent false) reqParseUserAgent) =
      some [h] := by
    rw [mapM_cons, show parseLine (inEoL .req .userAgent false) reqParseUserAgent curlLine = some h
      from hp]
    rfl
  exact ⟨h, hp, (extracted_iff vcharsToEol_inLine (cons_ne_nil _ _) hslot nofun
    hparse).mpr ⟨rfl, by decide +kernel⟩⟩

lemma not_extracted (hval : ∀ v ∈ httpMsgHdrVal kind id (.one h.1), v.flatten ≠ h.2) :
    ¬ Extracted kind id [h] := by
  rintro ⟨v, hv, hflat⟩
  exact hval v hv (hflat h mem_cons_self)

/-- `User-Agent:` without a value is accepted, and its value cannot be asked for; nor can that
of `Content-Type:text/html` in a `GET` request, and of `Content-Type: text/html` nothing is
stored. -/
theorem empty_user_agent_bug :
    (∃ h, parseLine false reqParseUserAgent ⟨inside "User-Agent", inside "\r\n"⟩ = some h ∧
      h.2 = [] ∧ ¬ Extracted .req .userAgent [h]) ∧
    ∀ ows ∈ ["", " "], ∃ h, parseLine (inEoL .req .contentType false) reqParseUserAgent
        ⟨inside "Content-Type", inside ows ++ inside "text/html\r\n"⟩ = some h ∧
      h.2 = ofAscii "text/html" ∧ ¬ Extracted .req .contentType [h] := by
  refine ⟨⟨([ofAscii "User-Agent", ofAscii ":"], []), by decide +kernel, rfl,
    not_extracted (by decide +kernel)⟩, ?_⟩
  simp only [mem_cons, not_mem_nil, or_false, forall_eq_or_imp, forall_eq]
  exact ⟨⟨([ofAscii "Content-Type", ofAscii ":"], ofAscii "text/html"), by decide +kernel, rfl,
      not_extracted (by decide +kernel)⟩,
    ([ofAscii "Content-Type", ofAscii ":", ofAscii " "], ofAscii "text/html"), by decide +kernel,
      rfl, not_extracted (by decide +kernel)⟩

end Tempesta.Http.HdrVal
