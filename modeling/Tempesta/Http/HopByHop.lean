import Tempesta.Http.HdrName
import Tempesta.Http.Stricmp

/-!
Hop-by-hop headers. The names listed in `Connection` are kept by the parser; a header is
marked with `TFW_STR_HBH_HDR` when it is listed, when a raw header is closed, or at the
end of the header section. Listed names are compared byte by byte, the name of a raw header
with those in front of it by the vector code.
-/

namespace Tempesta.Http.HopByHop

open List

open HdrName (specHdrs)

inductive Kind where
  | req
  | resp
  deriving DecidableEq, Repr

/-- The headers of a response that have a slot of their own; `Server` shares the slot of
`User-Agent`, `Set-Cookie` that of `Cookie` and `ETag` that of `If-None-Match` -/
def respHdrs : List (List UInt8 × TfwHttpHdr) :=
  [(ofAscii "connection:", .connection), (ofAscii "content-length:", .contentLength),
    (ofAscii "content-type:", .contentType), (ofAscii "etag:", .ifNoneMatch),
    (ofAscii "keep-alive:", .keepAlive), (ofAscii "server:", .userAgent),
    (ofAscii "transfer-encoding:", .transferEncoding), (ofAscii "set-cookie:", .cookie)]

def hdrs : Kind → List (List UInt8 × TfwHttpHdr)
  | .req => specHdrs.map fun e => (e.1, e.2.slot)
  | .resp => respHdrs

/-- A name in the chunks it has been received in -/
abbrev Name := List (List UInt8)

/-- A name in lower case, with the colon: what `tfw_stricmpspn` compares -/
def key (name : Name) : List UInt8 := name.flatten.map tfwLc ++ ofAscii ":"

/-- `__hdr_name_cmp` finds no difference: where one name ends before the other, its colon
stands against a character of the other name. -/
def hdrNameEq (a b : Name) : Bool := stricmpEq a b

/-- `parser->_hdr_tag` of the header -/
def slotOf (kind : Kind) (name : Name) : TfwHttpHdr :=
  ((hdrs kind).lookup (key name)).getD .raw

/-- What `__parse_connection` finds in the value of `Connection` -/
inductive Token where
  | close
  | keepAlive
  | name (n : Name)
  deriving DecidableEq, Repr

/-- A header line; the tokens are those of a `Connection` header -/
structure Line where
  name : Name
  tokens : List Token := []
  deriving DecidableEq, Repr

/-- The header table and `hbh_parser`. A slot holds the flag `TFW_STR_HBH_HDR` of its
header, that of the whole set if there are duplicates. -/
structure Msg where
  slot : TfwHttpHdr → Option Bool
  rawHdrs : List (Name × Bool)
  spec : List TfwHttpHdr
  names : List (Name × Bool)
  connClose : Bool
  connKa : Bool

/-- `tfw_http_init_parser_req`, `tfw_http_init_parser_resp` -/
def initSpec : Kind → List TfwHttpHdr
  | .req => [.connection]
  | .resp => [.connection, .userAgent]

def Msg.init (kind : Kind) : Msg :=
  { slot := fun _ => none, rawHdrs := [], spec := initSpec kind, names := [],
    connClose := false, connKa := false }

/-- The end-to-end headers of `__hbh_parser_add_data` -/
def block : List (List UInt8) :=
  ["age:", "authorization:", "cache-control:", "connection:", "content-length:",
    "content-type:", "cookie:", "date:", "etag:", "expires:", "host:", "pragma:", "server:",
    "transfer-encoding:", "user-agent:", "x-forwarded-for:"].map ofAscii

/-- `TFW_HBH_TOKENS_MAX` -/
def hbhTokensMax : Nat := 16

/-- The first entry of the name `k` that `p` accepts is set to `f` -/
def setFirst (p : Bool → Bool) (f : Bool) (k : Name) :
    List (Name × Bool) → Option (List (Name × Bool))
  | [] => none
  | e :: es =>
    if key e.1 = key k ∧ p e.2 then some ((e.1, f) :: es)
    else (setFirst p f k es).map (e :: ·)

/-- The search of `mark_raw_hbh`: the flag of a listed name is used once -/
def markRawHbh (names : List (Name × Bool)) (name : Name) : Bool × List (Name × Bool) :=
  match setFirst id false name names with
  | some names' => (true, names')
  | none => (false, names)

/-- `__hbh_parser_add_data` for the whole of a name, with `__mark_hbh_hdr` -/
def hbhParserAddData (m : Msg) (n : Name) : Option Msg :=
  if m.names.length = hbhTokensMax then none
  else if key n ∈ block then none
  else match setFirst (fun _ => true) true n m.rawHdrs with
    | some hdrs' => some { m with rawHdrs := hdrs', names := m.names ++ [(n, false)] }
    | none => some { m with names := m.names ++ [(n, true)] }

def Msg.token (m : Msg) : Token → Option Msg
  | .close => if m.connKa then none else some { m with connClose := true }
  | .keepAlive =>
    if m.connClose then none
    else some { m with
      connKa := true
      spec := .keepAlive :: m.spec
      slot := fun id => if id = .keepAlive then (m.slot id).map fun _ => true else m.slot id }
  | .name n => hbhParserAddData m n

/-- `tfw_http_msg_hdr_close`, for a raw header after `mark_raw_hbh`. A duplicate goes into
the set of the first header, which keeps its flags. -/
def hdrClose (kind : Kind) (m : Msg) (name : Name) : Option Msg :=
  match slotOf kind name with
  | .raw =>
    let (hbh, names') := markRawHbh m.names name
    if m.rawHdrs.any fun e => hdrNameEq e.1 name then some { m with names := names' }
    else some { m with rawHdrs := m.rawHdrs ++ [(name, hbh)], names := names' }
  | id =>
    match m.slot id with
    | none => some { m with slot := fun id' => if id' = id then some false else m.slot id' }
    | some _ => if id.singular then none else some m

inductive Event where
  | token (t : Token)
  | close (name : Name)
  deriving DecidableEq, Repr

def step (kind : Kind) (m : Msg) : Event → Option Msg
  | .token t => m.token t
  | .close name => hdrClose kind m name

def Line.events (kind : Kind) (l : Line) : List Event :=
  (if slotOf kind l.name = .connection then l.tokens.map .token else []) ++ [.close l.name]

/-- The end of the header section: `CRLF` by `RGen_CRLFCR`, or a single `LF` -/
inductive Eol where
  | crlf
  | lf
  deriving DecidableEq, Repr

def markSpecHbh (m : Msg) : Msg :=
  { m with slot := fun id => (m.slot id).map fun hbh => hbh || decide (id ∈ m.spec) }

/-- A header section; `none` if the message is blocked -/
def parseHdrs (kind : Kind) (lines : List Line) (eol : Eol) : Option Msg :=
  ((lines.flatMap (Line.events kind)).foldlM (step kind) (Msg.init kind)).map fun m =>
    match eol with
    | .crlf => markSpecHbh m
    | .lf => m

def keepAliveName : Name := [ofAscii "keep-alive"]

def Token.hdr : Token → Option Name
  | .close => none
  | .keepAlive => some keepAliveName
  | .name n => some n

def HasToken (kind : Kind) (lines : List Line) (t : Token) : Prop :=
  ∃ l ∈ lines, slotOf kind l.name = .connection ∧ t ∈ l.tokens

/-- `n` is a name collected from `Connection` -/
def Listed (kind : Kind) (lines : List Line) (n : Name) : Prop :=
  ∃ t, HasToken kind lines t ∧ t.hdr = some n

def HasHdr (kind : Kind) (lines : List Line) (id : TfwHttpHdr) : Prop :=
  ∃ l ∈ lines, slotOf kind l.name = id

/-- Exactly `Connection` and the listed headers are marked. -/
def Marked (kind : Kind) (lines : List Line) (m : Msg) : Prop :=
  (∀ id hbh, m.slot id = some hbh →
    (hbh = true ↔ id = .connection ∨ ∃ n, Listed kind lines n ∧ slotOf kind n = id)) ∧
  ∀ e ∈ m.rawHdrs, (e.2 = true ↔ ∃ n, Listed kind lines n ∧ key n = key e.1)

/-- A single `LF` ends a section without `Connection`; else a response has no `Server`, and
no header with a slot of its own is listed by its name, `Keep-Alive` beside the token of
that name excepted. -/
def markedWhen (kind : Kind) (lines : List Line) : Eol → Prop
  | .lf => ¬ HasHdr kind lines .connection
  | .crlf =>
    (kind = .resp → ¬ HasHdr kind lines .userAgent) ∧
    ∀ n, HasToken kind lines (.name n) → slotOf kind n ≠ .raw →
      HasHdr kind lines (slotOf kind n) →
      slotOf kind n = .keepAlive ∧ HasToken kind lines .keepAlive

/-- No two raw headers with different names pass for one in `__hdr_name_cmp`. -/
def Apart (kind : Kind) (lines : List Line) : Prop :=
  ∀ l ∈ lines, ∀ l' ∈ lines, slotOf kind l.name = .raw → slotOf kind l'.name = .raw →
    hdrNameEq l.name l'.name = true → key l.name = key l'.name

variable {kind : Kind} {a b n k name : Name} {id : TfwHttpHdr} {p : Bool → Bool}
  {f hbh : Bool} {es es' : List (Name × Bool)} {P : Name → Prop}

lemma hdrNameEq_of_key (h : key a = key b) : hdrNameEq a b = true :=
  stricmpEq_of_caseEq (caseEq_iff.mpr (append_cancel_right h))

lemma slotOf_congr (h : key a = key b) : slotOf kind a = slotOf kind b := by
  rw [slotOf, slotOf, h]

lemma mem_hdrs_of_slotOf (h : slotOf kind n = id) (hid : id ≠ .raw) :
    (key n, id) ∈ hdrs kind := by
  rw [slotOf] at h
  cases hl : (hdrs kind).lookup (key n) with
  | none =>
    rw [hl] at h
    exact absurd h.symm hid
  | some id' =>
    rw [hl] at h
    obtain rfl : id' = id := h
    obtain ⟨l₁, l₂, heq, -⟩ := lookup_eq_some_iff.mp hl
    rw [heq]
    exact mem_append_right l₁ mem_cons_self

lemma slotOf_keepAliveName (kind : Kind) : slotOf kind keepAliveName = .keepAlive := by
  cases kind <;> decide +kernel

lemma mem_block_of_initSpec (h : slotOf kind n ∈ initSpec kind) : key n ∈ block := by
  have hraw : slotOf kind n ≠ .raw := by
    intro hr
    rw [hr] at h
    revert h
    cases kind <;> decide
  have hall : ∀ e ∈ hdrs kind, e.2 ∈ initSpec kind → e.1 ∈ block := by
    cases kind <;> decide +kernel
  exact hall _ (mem_hdrs_of_slotOf rfl hraw) h

theorem setFirst_eq_none (h : setFirst p f k es = none) :
    ∀ e ∈ es, key e.1 = key k → p e.2 = false := by
  induction es with
  | nil => exact fun _ he => absurd he not_mem_nil
  | cons x es ih =>
    rw [setFirst] at h
    split at h
    · cases h
    · rename_i hx
      intro e he hk
      cases he with
      | head => exact Bool.eq_false_iff.mpr fun hp => hx ⟨hk, hp⟩
      | tail _ he => exact ih (Option.map_eq_none_iff.mp h) e he hk

lemma setFirst_eq_some (h : setFirst p f k es = some es') :
    ∃ l x r, es = l ++ x :: r ∧ es' = l ++ (x.1, f) :: r ∧ key x.1 = key k ∧ p x.2 = true := by
  induction es generalizing es' with
  | nil => cases h
  | cons y es ih =>
    rw [setFirst] at h
    split at h
    · rename_i hy
      cases h
      exact ⟨[], y, es, rfl, rfl, hy⟩
    · obtain ⟨es'', hes, rfl⟩ := Option.map_eq_some_iff.mp h
      obtain ⟨l, x, r, rfl, rfl, hx⟩ := ih hes
      exact ⟨y :: l, x, r, rfl, rfl, hx⟩

/-- After the events `done` -/
structure Inv (kind : Kind) (done : List Event) (m : Msg) : Prop where
  slot_isSome : ∀ id, (m.slot id).isSome ↔
    id ≠ .raw ∧ ∃ n, .close n ∈ done ∧ slotOf kind n = id
  slot_true : ∀ id, m.slot id = some true → id = .keepAlive ∧ .token .keepAlive ∈ done
  spec_iff : ∀ id, id ∈ m.spec ↔
    id ∈ initSpec kind ∨ id = .keepAlive ∧ .token .keepAlive ∈ done
  not_block : ∀ n, .token (.name n) ∈ done → key n ∉ block
  name_mem : ∀ e ∈ m.names, .token (.name e.1) ∈ done
  raw_slot : ∀ e ∈ m.rawHdrs, slotOf kind e.1 = .raw
  raw_closed : ∀ e ∈ m.rawHdrs, .close e.1 ∈ done
  raw_distinct : m.rawHdrs.Pairwise fun a b => key a.1 ≠ key b.1
  raw_iff : ∀ e ∈ m.rawHdrs,
    (e.2 = true ↔ ∃ n, .token (.name n) ∈ done ∧ key n = key e.1)
  pending : ∀ n, .token (.name n) ∈ done →
    (∃ e ∈ m.rawHdrs, key e.1 = key n) ∨ ∃ e ∈ m.names, key e.1 = key n ∧ e.2 = true

variable {done : List Event} {m m' : Msg}

lemma Inv.init (kind : Kind) : Inv kind [] (Msg.init kind) where
  slot_isSome id := by simp [Msg.init]
  slot_true id h := by cases h
  spec_iff id := by simp [Msg.init]
  not_block n h := absurd h not_mem_nil
  name_mem e h := absurd h not_mem_nil
  raw_slot e h := absurd h not_mem_nil
  raw_closed e h := absurd h not_mem_nil
  raw_distinct := List.Pairwise.nil
  raw_iff e h := absurd h not_mem_nil
  pending n h := absurd h not_mem_nil

variable {t : Token}

lemma Inv.of_token (hi : Inv kind done m) (ht : ∀ n, t ≠ .name n) (hraw : m'.rawHdrs = m.rawHdrs)
    (hnames : m'.names = m.names) (hsome : ∀ id, (m'.slot id).isSome = (m.slot id).isSome)
    (htrue : ∀ id, m'.slot id = some true → id = .keepAlive ∧
      .token .keepAlive ∈ done ++ [.token t])
    (hspec : ∀ id, id ∈ m'.spec ↔ id ∈ initSpec kind ∨ id = .keepAlive ∧
      .token .keepAlive ∈ done ++ [.token t]) :
    Inv kind (done ++ [.token t]) m' := by
  have hname : ∀ n, Event.token (.name n) ∈ done ++ [.token t] ↔ .token (.name n) ∈ done := by
    intro n
    simp only [mem_append, mem_singleton, Event.token.injEq, (ht n).symm, or_false]
  refine ⟨fun id => ?_, htrue, hspec, fun n h => hi.not_block n ((hname n).mp h), ?_, ?_, ?_, ?_,
    ?_, ?_⟩
  · rw [hsome, hi.slot_isSome]
    simp
  · rw [hnames]
    exact fun e he => (hname _).mpr (hi.name_mem e he)
  · rw [hraw]
    exact hi.raw_slot
  · rw [hraw]
    exact fun e he => mem_append_left _ (hi.raw_closed e he)
  · rw [hraw]
    exact hi.raw_distinct
  · rw [hraw]
    simp only [hname]
    exact hi.raw_iff
  · rw [hraw, hnames]
    exact fun n h => hi.pending n ((hname n).mp h)

lemma Inv.close (hi : Inv kind done m) (h : m.token .close = some m') :
    Inv kind (done ++ [.token .close]) m' := by
  rw [Msg.token] at h
  split at h
  · cases h
  · cases h
    have hka : Event.token .keepAlive ∈ done ++ [.token .close] ↔ .token .keepAlive ∈ done := by
      simp
    refine hi.of_token nofun rfl rfl (fun _ => rfl) (fun id hid => ?_) fun id => ?_
    · rw [hka]
      exact hi.slot_true id hid
    · rw [hka]
      exact hi.spec_iff id

lemma Inv.keepAlive (hi : Inv kind done m) (h : m.token .keepAlive = some m') :
    Inv kind (done ++ [.token .keepAlive]) m' := by
  rw [Msg.token] at h
  split at h
  · cases h
  · cases h
    have hka : Event.token .keepAlive ∈ done ++ [.token .keepAlive] := by simp
    refine hi.of_token nofun rfl rfl (fun id => ?_) (fun id hid => ⟨?_, hka⟩) fun id => ?_
    · dsimp only
      split
      · rw [Option.isSome_map]
      · rfl
    · by_cases hk : id = .keepAlive
      · exact hk
      · dsimp only at hid
        rw [if_neg hk] at hid
        exact (hi.slot_true id hid).1
    · rw [mem_cons, hi.spec_iff]
      constructor
      · rintro (rfl | h | ⟨rfl, -⟩)
        exacts [.inr ⟨rfl, hka⟩, .inl h, .inr ⟨rfl, hka⟩]
      · rintro (h | ⟨rfl, -⟩)
        exacts [.inr (.inl h), .inl rfl]

lemma Inv.of_name (hi : Inv kind done m) {b : Bool} (hb : key n ∉ block)
    (hslot : m'.slot = m.slot) (hspec : m'.spec = m.spec) (hnames : m'.names = m.names ++ [(n, b)])
    (hraw_slot : ∀ e ∈ m'.rawHdrs, slotOf kind e.1 = .raw ∧ .close e.1 ∈ done)
    (hraw_distinct : m'.rawHdrs.Pairwise fun a b => key a.1 ≠ key b.1)
    (hraw_iff : ∀ e ∈ m'.rawHdrs, (e.2 = true ↔ key n = key e.1 ∨ ∃ n, .token (.name n) ∈ done ∧
      key n = key e.1))
    (hsame : ∀ k, (∃ e ∈ m.rawHdrs, key e.1 = k) → ∃ e ∈ m'.rawHdrs, key e.1 = k)
    (hfound : b = false → ∃ e ∈ m'.rawHdrs, key e.1 = key n) :
    Inv kind (done ++ [.token (.name n)]) m' := by
  have hmem : ∀ n', Event.token (.name n') ∈ done ++ [.token (.name n)] ↔
      .token (.name n') ∈ done ∨ n' = n := by
    simp
  have hka : Event.token .keepAlive ∈ done ++ [.token (.name n)] ↔ .token .keepAlive ∈ done := by
    simp
  refine ⟨fun id => ?_, ?_, ?_, ?_, ?_, fun e he => (hraw_slot e he).1,
    fun e he => mem_append_left _ (hraw_slot e he).2, hraw_distinct, ?_, ?_⟩
  · rw [hslot, hi.slot_isSome]
    simp
  · rw [hslot, hka]
    exact hi.slot_true
  · rw [hspec, hka]
    exact hi.spec_iff
  · intro n' h
    rcases (hmem n').mp h with h | rfl
    · exact hi.not_block n' h
    · exact hb
  · rw [hnames]
    intro e he
    rw [hmem]
    rcases mem_append.mp he with he | he
    · exact .inl (hi.name_mem e he)
    · cases mem_singleton.mp he
      exact .inr rfl
  · intro e he
    rw [hraw_iff e he]
    simp only [hmem]
    constructor
    · rintro (h | ⟨n', hn', h⟩)
      exacts [⟨n, .inr rfl, h⟩, ⟨n', .inl hn', h⟩]
    · rintro ⟨n', hn' | rfl, h⟩
      exacts [.inr ⟨n', hn', h⟩, .inl h]
  · intro n' h
    rw [hnames]
    rcases (hmem n').mp h with h | rfl
    · rcases hi.pending n' h with h | ⟨e, he, h⟩
      · exact .inl (hsame _ h)
      · exact .inr ⟨e, mem_append_left _ he, h⟩
    · cases b with
      | false => exact .inl (hfound rfl)
      | true => exact .inr ⟨(n', true), by simp, rfl, rfl⟩

lemma Inv.addData (hi : Inv kind done m) (h : hbhParserAddData m n = some m') :
    Inv kind (done ++ [.token (.name n)]) m' := by
  rw [hbhParserAddData] at h
  split at h
  · cases h
  split at h
  · cases h
  rename_i hb
  split at h
  · rename_i es' hset
    cases h
    obtain ⟨l, x, r, hes, rfl, hx, -⟩ := setFirst_eq_some hset
    have hd := hi.raw_distinct
    have hs : ∀ e ∈ m.rawHdrs, slotOf kind e.1 = .raw ∧ .close e.1 ∈ done :=
      fun e he => ⟨hi.raw_slot e he, hi.raw_closed e he⟩
    have hf := hi.raw_iff
    rw [hes] at hd hs hf
    have hmid : (x.1, true) ∈ l ++ (x.1, true) :: r := by simp
    have hne : ∀ e ∈ l ++ r, key n ≠ key e.1 := by
      rw [← hx]
      intro e he
      rw [pairwise_append, pairwise_cons] at hd
      rcases mem_append.mp he with he | he
      · exact fun heq => hd.2.2 e he x mem_cons_self heq.symm
      · exact hd.2.1.1 e he
    refine hi.of_name hb rfl rfl rfl ?_ ?_ ?_ ?_ fun _ => ⟨_, hmid, hx⟩
    · simp only [mem_append, mem_cons] at hs ⊢
      rintro e (he | rfl | he)
      exacts [hs e (.inl he), hs x (.inr (.inl rfl)), hs e (.inr (.inr he))]
    · simpa only [pairwise_append, pairwise_cons, mem_cons, forall_eq_or_imp]
        using hd
    · have hold : ∀ e ∈ l ++ r, (e.2 = true ↔
          key n = key e.1 ∨ ∃ n, .token (.name n) ∈ done ∧ key n = key e.1) := by
        intro e he
        rw [hf e (by simp only [mem_append, mem_cons] at he ⊢; tauto)]
        exact (or_iff_right (hne e he)).symm
      simp only [mem_append, mem_cons] at hold ⊢
      rintro e (he | rfl | he)
      · exact hold e (.inl he)
      · exact iff_of_true rfl (.inl hx.symm)
      · exact hold e (.inr he)
    · rw [hes]
      rintro k ⟨e, he, hk⟩
      simp only [mem_append, mem_cons] at he ⊢
      rcases he with he | rfl | he
      exacts [⟨e, .inl he, hk⟩, ⟨(e.1, true), .inr (.inl rfl), hk⟩, ⟨e, .inr (.inr he), hk⟩]
  · rename_i hset
    cases h
    refine hi.of_name hb rfl rfl rfl (fun e he => ⟨hi.raw_slot e he, hi.raw_closed e he⟩)
      hi.raw_distinct (fun e he => ?_)
      (fun _ h => h) nofun
    rw [hi.raw_iff e he]
    have hne : ¬ key n = key e.1 :=
      fun heq => Bool.noConfusion (setFirst_eq_none hset e he heq.symm)
    exact (or_iff_right hne).symm

/-- `mark_raw_hbh` finds a name exactly if its flag is still set, and leaves the others. -/
theorem markRawHbh_spec (names : List (Name × Bool)) (k : Name) :
    ((markRawHbh names k).1 = true ↔ ∃ e ∈ names, key e.1 = key k ∧ e.2 = true) ∧
    (∀ e ∈ (markRawHbh names k).2, ∃ e' ∈ names, e'.1 = e.1) ∧
    ∀ e ∈ names, key e.1 ≠ key k → e ∈ (markRawHbh names k).2 := by
  rw [markRawHbh]
  split
  · rename_i names' hset
    obtain ⟨l, x, r, rfl, rfl, hx, hp⟩ := setFirst_eq_some hset
    refine ⟨iff_of_true rfl ⟨x, by simp, hx, hp⟩, ?_, ?_⟩
    · intro e he
      simp only [mem_append, mem_cons] at he ⊢
      rcases he with he | rfl | he
      exacts [⟨e, .inl he, rfl⟩, ⟨x, .inr (.inl rfl), rfl⟩, ⟨e, .inr (.inr he), rfl⟩]
    · intro e he hne
      simp only [mem_append, mem_cons] at he ⊢
      rcases he with he | rfl | he
      exacts [.inl he, absurd hx hne, .inr (.inr he)]
  · rename_i hset
    refine ⟨iff_of_false Bool.false_ne_true ?_, fun e he => ⟨e, he, rfl⟩, fun e he _ => he⟩
    rintro ⟨e, he, hk, ht⟩
    exact Bool.noConfusion (ht.symm.trans (setFirst_eq_none hset e he hk))

lemma Inv.of_close (hi : Inv kind done m) (hspec : m'.spec = m.spec)
    (hsome : ∀ id, (m'.slot id).isSome ↔ id ≠ .raw ∧
      ((∃ n, .close n ∈ done ∧ slotOf kind n = id) ∨ slotOf kind name = id))
    (htrue : ∀ id, m'.slot id = some true → m.slot id = some true)
    (hname_mem : ∀ e ∈ m'.names, .token (.name e.1) ∈ done)
    (hraw_slot : ∀ e ∈ m'.rawHdrs, slotOf kind e.1 = .raw ∧ .close e.1 ∈ done ++ [.close name])
    (hraw_distinct : m'.rawHdrs.Pairwise fun a b => key a.1 ≠ key b.1)
    (hraw_iff : ∀ e ∈ m'.rawHdrs, (e.2 = true ↔ ∃ n, .token (.name n) ∈ done ∧ key n = key e.1))
    (hpending : ∀ n, .token (.name n) ∈ done → (∃ e ∈ m'.rawHdrs, key e.1 = key n) ∨
      ∃ e ∈ m'.names, key e.1 = key n ∧ e.2 = true) :
    Inv kind (done ++ [.close name]) m' := by
  have htok : ∀ t, Event.token t ∈ done ++ [.close name] ↔ .token t ∈ done := by simp
  have hclose : ∀ id, (∃ n, Event.close n ∈ done ++ [.close name] ∧ slotOf kind n = id) ↔
      (∃ n, .close n ∈ done ∧ slotOf kind n = id) ∨ slotOf kind name = id := by
    intro id
    simp only [mem_append, mem_singleton, Event.close.injEq, or_and_right, exists_or,
      exists_eq_left]
  refine ⟨fun id => ?_, fun id h => ?_, ?_, fun n h => ?_,
    fun e he => (htok _).mpr (hname_mem e he), fun e he => (hraw_slot e he).1,
    fun e he => (hraw_slot e he).2, hraw_distinct, fun e he => ?_,
    fun n h => hpending n ((htok _).mp h)⟩
  · rw [hclose]
    exact hsome id
  · rw [htok]
    exact hi.slot_true id (htrue id h)
  · rw [hspec, htok]
    exact hi.spec_iff
  · exact hi.not_block n ((htok _).mp h)
  · rw [hraw_iff e he]
    simp only [htok]

lemma Inv.raw_known (hi : Inv kind done m) :
    ∀ e ∈ m.rawHdrs, slotOf kind e.1 = .raw ∧ .close e.1 ∈ done ++ [.close name] :=
  fun e he => ⟨hi.raw_slot e he, mem_append_left _ (hi.raw_closed e he)⟩

lemma Inv.closeRaw (hi : Inv kind done m) (hs : slotOf kind name = .raw)
    (hapart : ∀ e ∈ m.rawHdrs, hdrNameEq e.1 name = true → key e.1 = key name)
    (h : hdrClose kind m name = some m') : Inv kind (done ++ [.close name]) m' := by
  obtain ⟨hfound, hold, hkept⟩ := markRawHbh_spec m.names name
  have hsome : ∀ id, (m.slot id).isSome ↔
      id ≠ .raw ∧ ((∃ n, .close n ∈ done ∧ slotOf kind n = id) ∨ slotOf kind name = id) := by
    intro id
    rw [hi.slot_isSome, hs]
    exact and_congr_right fun hid => (or_iff_left hid.symm).symm
  have hmem : ∀ e ∈ (markRawHbh m.names name).2, Event.token (.name e.1) ∈ done := by
    intro e he
    obtain ⟨e', he', heq⟩ := hold e he
    rw [← heq]
    exact hi.name_mem e' he'
  have hpend : ∀ rawHdrs : List (Name × Bool), (∀ e ∈ m.rawHdrs, e ∈ rawHdrs) →
      (∃ e ∈ rawHdrs, key e.1 = key name) → ∀ n, Event.token (.name n) ∈ done →
        (∃ e ∈ rawHdrs, key e.1 = key n) ∨
          ∃ e ∈ (markRawHbh m.names name).2, key e.1 = key n ∧ e.2 = true := by
    intro rawHdrs hsub hnew n hn
    by_cases hk : key n = key name
    · rw [hk]
      exact .inl hnew
    · rcases hi.pending n hn with ⟨e, he, heq⟩ | ⟨e, he, heq, ht⟩
      · exact .inl ⟨e, hsub e he, heq⟩
      · exact .inr ⟨e, hkept e he (heq ▸ hk), heq, ht⟩
  rw [hdrClose, hs] at h
  dsimp only at h
  split at h
  · rename_i hany
    cases h
    obtain ⟨e, he, hk⟩ := any_eq_true.mp hany
    exact hi.of_close rfl hsome (fun _ h => h) hmem hi.raw_known hi.raw_distinct hi.raw_iff
      (hpend _ (fun _ h => h) ⟨e, he, hapart e he hk⟩)
  · rename_i hany
    cases h
    have hne : ∀ e ∈ m.rawHdrs, key e.1 ≠ key name := by
      intro e he hk
      exact hany (any_eq_true.mpr ⟨e, he, hdrNameEq_of_key hk⟩)
    have hlast : (name, (markRawHbh m.names name).1) ∈
        m.rawHdrs ++ [(name, (markRawHbh m.names name).1)] := by
      simp
    refine hi.of_close rfl hsome (fun _ h => h) hmem ?_ ?_ ?_
      (hpend _ (fun e he => mem_append_left _ he) ⟨_, hlast, rfl⟩)
    · intro e he
      rcases mem_append.mp he with he | he
      · exact hi.raw_known e he
      · cases mem_singleton.mp he
        exact ⟨hs, by simp⟩
    · refine pairwise_append.mpr ⟨hi.raw_distinct, pairwise_singleton _ _, ?_⟩
      intro e he e' he'
      cases mem_singleton.mp he'
      exact hne e he
    · intro e he
      rcases mem_append.mp he with he | he
      · exact hi.raw_iff e he
      · cases mem_singleton.mp he
        rw [hfound]
        constructor
        · rintro ⟨e, he, hk, -⟩
          exact ⟨e.1, hi.name_mem e he, hk⟩
        · rintro ⟨n, hn, hk⟩
          dsimp only at hk
          rcases hi.pending n hn with ⟨e, he, heq⟩ | ⟨e, he, heq, ht⟩
          · exact absurd (heq.trans hk) (hne e he)
          · exact ⟨e, he, heq.trans hk, ht⟩

lemma hdrClose_spec (hs : slotOf kind name ≠ .raw) :
    hdrClose kind m name = match m.slot (slotOf kind name) with
      | none => some { m with
          slot := fun id => if id = slotOf kind name then some false else m.slot id }
      | some _ => if (slotOf kind name).singular then none else some m := by
  rw [hdrClose]
  split
  · rename_i h
    exact absurd h hs
  · rfl

lemma Inv.closeSpec (hi : Inv kind done m) (hs : slotOf kind name ≠ .raw)
    (h : hdrClose kind m name = some m') : Inv kind (done ++ [.close name]) m' := by
  rw [hdrClose_spec hs] at h
  split at h
  · rename_i hnone
    cases h
    refine hi.of_close rfl (fun id => ?_) (fun id hid => ?_) hi.name_mem hi.raw_known
      hi.raw_distinct hi.raw_iff hi.pending
    · dsimp only
      by_cases hid : id = slotOf kind name
      · subst hid
        rw [if_pos rfl]
        exact iff_of_true rfl ⟨hs, .inr rfl⟩
      · rw [if_neg hid, hi.slot_isSome]
        exact and_congr_right fun _ => (or_iff_left (Ne.symm hid)).symm
    · dsimp only at hid
      split at hid
      · cases hid
      · exact hid
  · rename_i hbh hsome
    split at h
    · cases h
    · cases h
      have hold := hi.slot_isSome (slotOf kind name)
      rw [hsome] at hold
      refine hi.of_close rfl (fun id => ?_) (fun _ h => h) hi.name_mem hi.raw_known
        hi.raw_distinct hi.raw_iff hi.pending
      rw [hi.slot_isSome]
      refine and_congr_right fun _ => ⟨.inl, ?_⟩
      rintro (h | rfl)
      · exact h
      · exact (hold.mp rfl).2

variable {e : Event}

/-- The headers that end in the events, each two of them told apart as in `Apart` -/
def ApartIn (kind : Kind) (events : List Event) : Prop :=
  ∀ a b, .close a ∈ events → .close b ∈ events → slotOf kind a = .raw → slotOf kind b = .raw →
    hdrNameEq a b = true → key a = key b

lemma Inv.step (hi : Inv kind done m) (hapart : ApartIn kind (done ++ [e]))
    (h : step kind m e = some m') : Inv kind (done ++ [e]) m' := by
  cases e with
  | token t =>
    cases t with
    | close => exact hi.close h
    | keepAlive => exact hi.keepAlive h
    | name n => exact hi.addData h
  | close name =>
    by_cases hs : slotOf kind name = .raw
    · refine hi.closeRaw hs (fun e he hk => ?_) h
      exact hapart e.1 name (mem_append_left _ (hi.raw_closed e he)) (by simp)
        (hi.raw_slot e he) hs hk
    · exact hi.closeSpec hs h

variable {events : List Event}

lemma Inv.run (hi : Inv kind done m) (hapart : ApartIn kind (done ++ events))
    (h : events.foldlM (HopByHop.step kind) m = some m') : Inv kind (done ++ events) m' := by
  induction events generalizing done m with
  | nil =>
    cases h
    rwa [append_nil]
  | cons e events ih =>
    rw [foldlM_cons] at h
    obtain ⟨m₁, hstep, hrest⟩ := Option.bind_eq_some_iff.mp h
    rw [← singleton_append, ← append_assoc] at hapart ⊢
    refine ih (hi.step (fun a b ha hb => ?_) hstep) hapart hrest
    exact hapart a b (mem_append_left _ ha) (mem_append_left _ hb)

variable {lines : List Line} {eol : Eol}

lemma mem_events_token : .token t ∈ lines.flatMap (Line.events kind) ↔ HasToken kind lines t := by
  rw [mem_flatMap]
  refine exists_congr fun l => and_congr_right fun _ => ?_
  rw [Line.events]
  split
  · rename_i hc
    simp [hc]
  · rename_i hc
    simp [hc]

lemma close_mem_events :
    .close n ∈ lines.flatMap (Line.events kind) ↔ ∃ l ∈ lines, l.name = n := by
  rw [mem_flatMap]
  refine exists_congr fun l => and_congr_right fun _ => ?_
  rw [Line.events]
  split <;> simp [eq_comm]

lemma mem_events_close :
    (∃ n, .close n ∈ lines.flatMap (Line.events kind) ∧ slotOf kind n = id) ↔
      HasHdr kind lines id := by
  simp only [close_mem_events, HasHdr]
  constructor
  · rintro ⟨n, ⟨l, hl, rfl⟩, hid⟩
    exact ⟨l, hl, hid⟩
  · rintro ⟨l, hl, hid⟩
    exact ⟨l.name, ⟨l, hl, rfl⟩, hid⟩

lemma Apart.inEvents (h : Apart kind lines) : ApartIn kind (lines.flatMap (Line.events kind)) := by
  intro a b ha hb
  obtain ⟨l, hl, rfl⟩ := close_mem_events.mp ha
  obtain ⟨l', hl', rfl⟩ := close_mem_events.mp hb
  exact h l hl l' hl'

lemma listed_iff :
    (∃ n, Listed kind lines n ∧ P n) ↔
      (HasToken kind lines .keepAlive ∧ P keepAliveName) ∨
        ∃ n, HasToken kind lines (.name n) ∧ P n := by
  constructor
  · rintro ⟨n, ⟨t, ht, hn⟩, hp⟩
    cases t with
    | close => cases hn
    | keepAlive =>
      cases hn
      exact .inl ⟨ht, hp⟩
    | name n' =>
      cases hn
      exact .inr ⟨n, ht, hp⟩
  · rintro (⟨ht, hp⟩ | ⟨n, ht, hp⟩)
    exacts [⟨_, ⟨_, ht, rfl⟩, hp⟩, ⟨n, ⟨_, ht, rfl⟩, hp⟩]

lemma Inv.rawHdrs_marked (hi : Inv kind (lines.flatMap (Line.events kind)) m) :
    ∀ e ∈ m.rawHdrs, (e.2 = true ↔ ∃ n, Listed kind lines n ∧ key n = key e.1) := by
  intro e he
  simp only [hi.raw_iff e he, mem_events_token, listed_iff]
  refine (or_iff_right ?_).symm
  rintro ⟨-, hk⟩
  have hs := hi.raw_slot e he
  rw [← slotOf_congr hk, slotOf_keepAliveName] at hs
  cases hs

lemma Inv.exists_slot (hi : Inv kind (lines.flatMap (Line.events kind)) m)
    (h : HasHdr kind lines id) (hid : id ≠ .raw) : ∃ hbh, m.slot id = some hbh :=
  Option.isSome_iff_exists.mp ((hi.slot_isSome id).mpr ⟨hid, mem_events_close.mpr h⟩)

lemma Inv.marked_lf_iff (hi : Inv kind (lines.flatMap (Line.events kind)) m) :
    Marked kind lines m ↔ ¬ HasHdr kind lines .connection := by
  constructor
  · rintro ⟨hslot, -⟩ hc
    obtain ⟨hbh, hh⟩ := hi.exists_slot hc nofun
    rw [(hslot _ _ hh).mpr (.inl rfl)] at hh
    cases (hi.slot_true _ hh).1
  · intro hc
    have hnone : ∀ t, ¬ HasToken kind lines t := fun t ⟨l, hl, hs, _⟩ => hc ⟨l, hl, hs⟩
    refine ⟨fun id hbh hh => iff_of_false ?_ ?_, hi.rawHdrs_marked⟩
    · rintro rfl
      exact hnone _ (mem_events_token.mp (hi.slot_true id hh).2)
    · rintro (rfl | ⟨n, ⟨t, ht, -⟩, -⟩)
      · exact hc (mem_events_close.mp ((hi.slot_isSome _).mp (by rw [hh]; rfl)).2)
      · exact hnone t ht

lemma Inv.mem_spec_iff (hi : Inv kind (lines.flatMap (Line.events kind)) m) (id : TfwHttpHdr) :
    id ∈ m.spec ↔ id = .connection ∨ (kind = .resp ∧ id = .userAgent) ∨
      (id = .keepAlive ∧ HasToken kind lines .keepAlive) := by
  rw [hi.spec_iff, mem_events_token]
  cases kind <;> simp [initSpec, or_assoc]

lemma Inv.slot_markSpecHbh (hi : Inv kind (lines.flatMap (Line.events kind)) m)
    (h : (markSpecHbh m).slot id = some hbh) : (m.slot id).isSome ∧ (hbh = true ↔ id ∈ m.spec) := by
  obtain ⟨b, hb, rfl⟩ := Option.map_eq_some_iff.mp h
  refine ⟨by rw [hb]; rfl, ?_⟩
  rw [Bool.or_eq_true, decide_eq_true_iff]
  refine or_iff_right_of_imp fun ht => ?_
  rw [ht] at hb
  exact (hi.spec_iff id).mpr (.inr (hi.slot_true id hb))

lemma Inv.not_initSpec (hi : Inv kind (lines.flatMap (Line.events kind)) m)
    (h : HasToken kind lines (.name n)) : slotOf kind n ∉ initSpec kind :=
  fun hs => hi.not_block n (mem_events_token.mpr h) (mem_block_of_initSpec hs)

lemma Inv.marked_crlf_iff (hi : Inv kind (lines.flatMap (Line.events kind)) m) :
    Marked kind lines (markSpecHbh m) ↔ markedWhen kind lines .crlf := by
  have hexists : ∀ {id}, HasHdr kind lines id → id ≠ .raw →
      ∃ hbh, (markSpecHbh m).slot id = some hbh := by
    intro id h hid
    obtain ⟨hbh, hh⟩ := hi.exists_slot h hid
    exact ⟨_, congrArg (Option.map _) hh⟩
  constructor
  · rintro ⟨hslot, -⟩
    refine ⟨?_, ?_⟩
    · rintro rfl hserver
      obtain ⟨hbh, hh⟩ := hexists hserver nofun
      have hmark := (hi.slot_markSpecHbh hh).2.mpr
        ((hi.mem_spec_iff _).mpr (.inr (.inl ⟨rfl, rfl⟩)))
      rcases (hslot _ _ hh).mp hmark with h | h
      · cases h
      · rcases listed_iff.mp h with ⟨-, h⟩ | ⟨n, hn, h⟩
        · rw [slotOf_keepAliveName] at h
          cases h
        · exact hi.not_initSpec hn (h ▸ by decide)
    · intro n hn hraw hhdr
      obtain ⟨hbh, hh⟩ := hexists hhdr hraw
      have hmark := (hslot _ _ hh).mpr (.inr (listed_iff.mpr (.inr ⟨n, hn, rfl⟩)))
      have hinit := hi.not_initSpec hn
      rcases (hi.spec_iff _).mp ((hi.slot_markSpecHbh hh).2.mp hmark) with h | ⟨h, ht⟩
      · exact absurd h hinit
      · exact ⟨h, mem_events_token.mp ht⟩
  · rintro ⟨hserver, hnames⟩
    refine ⟨fun id hbh hh => ?_, hi.rawHdrs_marked⟩
    obtain ⟨hsome, hmark⟩ := hi.slot_markSpecHbh hh
    obtain ⟨hraw, hhdr⟩ := (hi.slot_isSome id).mp hsome
    rw [mem_events_close] at hhdr
    rw [hmark, hi.mem_spec_iff, listed_iff]
    refine or_congr_right ⟨?_, ?_⟩
    · rintro (⟨hk, rfl⟩ | ⟨rfl, ht⟩)
      · exact absurd hhdr (hserver hk)
      · exact .inl ⟨ht, slotOf_keepAliveName kind⟩
    · rintro (⟨ht, rfl⟩ | ⟨n, hn, rfl⟩)
      · exact .inr ⟨slotOf_keepAliveName kind, ht⟩
      · exact .inr (hnames n hn hraw hhdr)

/-- A name of 43 bytes that ends with the given ones -/
def longName (last : String) : Name :=
  [ofAscii "X-Acme-Internal-Tracing-Correlation-Ident", ofAscii last]

/-- `Connection: te` between two headers `TE`, and two long names that come in two chunks -/
def teLines : List Line :=
  [⟨[ofAscii "Host"], []⟩, ⟨[ofAscii "TE"], []⟩,
    ⟨[ofAscii "Connection"], [.name [ofAscii "te"], .name (longName "-a")]⟩,
    ⟨longName "-A", []⟩, ⟨longName "-B", []⟩, ⟨[ofAscii "t", ofAscii "e"], []⟩]

/-- `Connection: close` in a section that ends with a single `LF` -/
def closeLines : List Line := [⟨[ofAscii "Host"], []⟩, ⟨[ofAscii "Connection"], [.close]⟩]

/-- `Connection: referer` after `Referer` -/
def refererLines : List Line :=
  [⟨[ofAscii "Host"], []⟩, ⟨[ofAscii "Referer"], []⟩,
    ⟨[ofAscii "Connection"], [.name [ofAscii "referer"]]⟩]

/-- The long names in one chunk each, the first of them listed -/
def identLines : List Line :=
  [⟨[ofAscii "Host"], []⟩, ⟨[ofAscii "Connection"], [.name [(longName "-A").flatten]]⟩,
    ⟨[(longName "-A").flatten], []⟩, ⟨[(longName "-B").flatten], []⟩]

end Tempesta.Http.HopByHop
