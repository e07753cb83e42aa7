import Tempesta.Http.HopByHop

/-!
Hop-by-hop headers on the way to HTTP/1.1 and to HTTP/2 clients. Headers of one name share
an entry of the header table: `tfw_http_msg_del_hbh_hdrs` looks at the flag of the entry,
`tfw_h2_resp_next_hdr` at that of each header in it.
-/

namespace Tempesta.Http.HopByHop

open List

/-- The flags `TFW_STR_HBH_HDR` of the raw headers in the entry of each name, in the order of
the lines -/
abbrev Members := List UInt8 → List Bool

/-- The entry that `tfw_http_msg_hdr_close` puts a raw header into, by the name of the first
header there -/
def entryKey (m : Msg) (name : Name) : List UInt8 :=
  ((m.rawHdrs.find? fun e => hdrNameEq e.1 name).map fun e => key e.1).getD (key name)

/-- A single header is the entry itself; in a set of duplicates the entry has flags of its
own. `tfw_str_add_duplicate` copies the flags of the entry to the first header. -/
def memberStep (kind : Kind) (m : Msg) (ms : Members) : Event → Members
  | .token (.name n) => fun k => if k = key n ∧ (ms k).length = 1 then [true] else ms k
  | .token _ => ms
  | .close name => fun k =>
    if k = entryKey m name ∧ slotOf kind name = .raw then ms k ++ [(markRawHbh m.names name).1]
    else ms k

def h2Step (kind : Kind) (x : Msg × Members) (e : Event) : Option (Msg × Members) :=
  (step kind x.1 e).map fun m => (m, memberStep kind x.1 x.2 e)

def parseHdrsH2 (kind : Kind) (lines : List Line) (eol : Eol) : Option (Msg × Members) :=
  ((lines.flatMap (Line.events kind)).foldlM (h2Step kind) (Msg.init kind, fun _ => [])).map
    fun x => (match eol with | .crlf => markSpecHbh x.1 | .lf => x.1, x.2)

/-- Both paths drop the same lines: those of a raw header all or none, and of a special one
none but for `Connection`, `Keep-Alive` and `Server`. -/
def SameFilter (x : Msg × Members) : Prop :=
  (∀ e ∈ x.1.rawHdrs, ∀ hbh ∈ x.2 (key e.1), hbh = e.2) ∧
  ∀ id, id ∉ [.connection, .keepAlive, .userAgent] → x.1.slot id ≠ some true

/-- The events of one name: it is listed (`true`), or a header of it ends -/
def eventOf (k : List UInt8) : Event → Option Bool
  | .token (.name n) => if key n = k then some true else none
  | .token _ => none
  | .close name => if key name = k then some false else none

def nameEvents (kind : Kind) (lines : List Line) (k : List UInt8) : List Bool :=
  (lines.flatMap (Line.events kind)).filterMap (eventOf k)

/-- How often a name is listed before the first header of it -/
def ahead (ts : List Bool) : Nat := (ts.takeWhile id).length

/-- A name that is listed has one header, or is listed once for each of them before the
first one. -/
def sameWhen (kind : Kind) (lines : List Line) : Prop :=
  ∀ n, HasToken kind lines (.name n) → slotOf kind n = .raw →
    (nameEvents kind lines (key n)).count false ≤ max 1 (ahead (nameEvents kind lines (key n)))

/-- The names that are listed and not found yet, and the flags of the headers -/
structure Tally where
  pending : Nat
  members : List Bool

def Tally.step (s : Tally) : Bool → Tally
  | true =>
    if s.members = [] then { s with pending := s.pending + 1 }
    else if s.members.length = 1 then { s with members := [true] }
    else s
  | false => ⟨s.pending - 1, s.members ++ [decide (0 < s.pending)]⟩

structure Tally.Inv (ts : List Bool) (s : Tally) : Prop where
  pending : s.pending = ahead ts - ts.count false
  length : s.members.length = ts.count false
  later : ∀ i, 1 ≤ i → i < ts.count false → s.members[i]? = some (decide (i < ahead ts))
  first : 0 < ahead ts → 0 < ts.count false → s.members[0]? = some true
  single : ts.count false = 1 → s.members[0]? = some (decide (true ∈ ts))
  unlisted : true ∉ ts → s.pending = 0 ∧ ∀ b ∈ s.members, b = false

variable {ts bs bs' : List Bool} {b f : Bool} {p : Bool → Bool} {e : Event} {kind : Kind}
  {es es' names : List (Name × Bool)} {done events : List Event} {lines : List Line}
  {k : List UInt8} {n : Name} {m m' : Msg}

lemma ahead_snoc :
    ahead (ts ++ [b]) = if ts.count false = 0 ∧ b = true then ahead ts + 1 else ahead ts := by
  induction ts with
  | nil => cases b <;> rfl
  | cons a ts ih =>
    cases a with
    | true =>
      have hcons : ∀ l, ahead (true :: l) = ahead l + 1 := fun _ => rfl
      rw [cons_append, hcons, hcons, ih, count_cons_of_ne (by decide)]
      split <;> rfl
    | false =>
      have hpos : (false :: ts).count false ≠ 0 := by simp
      rw [if_neg fun hc => hpos hc.1]
      rfl

/-- Before the first header every event lists the name. -/
theorem ahead_pos_iff (h : ts.count false = 0) : 0 < ahead ts ↔ true ∈ ts := by
  cases ts with
  | nil => simp [ahead]
  | cons b ts =>
    cases b with
    | true => simp [ahead]
    | false => simp at h

lemma Tally.Inv.nil : Tally.Inv [] ⟨0, []⟩ :=
  ⟨rfl, rfl, fun _ _ h => absurd h (Nat.not_lt_zero _), fun _ h => absurd h (Nat.not_lt_zero _),
    nofun, fun _ => ⟨rfl, nofun⟩⟩

variable {s : Tally}

lemma Tally.Inv.listed (h : Tally.Inv ts s) :
    Tally.Inv (ts ++ [true]) (s.step true) := by
  have hcount : (ts ++ [true]).count false = ts.count false := by simp
  have hmem : true ∈ ts ++ [true] := by simp
  by_cases hnil : s.members = []
  · have hzero : ts.count false = 0 := by rw [← h.length, hnil]; rfl
    have hahead : ahead (ts ++ [true]) = ahead ts + 1 := by rw [ahead_snoc, if_pos ⟨hzero, rfl⟩]
    rw [step, if_pos hnil]
    refine ⟨?_, by rw [hcount]; exact h.length, ?_, ?_, ?_, fun hno => absurd hmem hno⟩
    · rw [hahead, hcount, hzero]
      show s.pending + 1 = _
      rw [h.pending, hzero]
      rfl
    all_goals
      intros
      omega
  · have hpos : ts.count false ≠ 0 := by
      rw [← h.length]
      exact fun hz => hnil (length_eq_zero_iff.mp hz)
    have hahead : ahead (ts ++ [true]) = ahead ts := by rw [ahead_snoc, if_neg fun hc => hpos hc.1]
    rw [step, if_neg hnil]
    by_cases hone : s.members.length = 1
    · rw [if_pos hone]
      have hone' := h.length.symm.trans hone
      refine ⟨by rw [hahead, hcount]; exact h.pending, by rw [hcount, hone']; rfl, ?_,
        fun _ _ => rfl, fun _ => by rw [decide_eq_true hmem]; rfl, fun hno => absurd hmem hno⟩
      intros
      omega
    · rw [if_neg hone]
      refine ⟨by rw [hahead, hcount]; exact h.pending, by rw [hcount]; exact h.length,
        by rw [hahead, hcount]; exact h.later, by rw [hahead, hcount]; exact h.first, fun hc => ?_,
        fun hno => absurd hmem hno⟩
      rw [hcount, ← h.length] at hc
      exact absurd hc hone

lemma Tally.Inv.ended (h : Tally.Inv ts s) :
    Tally.Inv (ts ++ [false]) (s.step false) := by
  have hcount : (ts ++ [false]).count false = ts.count false + 1 := by simp
  have hahead : ahead (ts ++ [false]) = ahead ts := by rw [ahead_snoc, if_neg nofun]
  have hlast : (s.members ++ [decide (0 < s.pending)])[ts.count false]? =
      some (decide (ts.count false < ahead ts)) := by
    rw [← h.length, getElem?_concat_length, h.length, h.pending]
    congr 2
    exact propext (by omega)
  have hold : ∀ i < ts.count false,
      (s.members ++ [decide (0 < s.pending)])[i]? = s.members[i]? := by
    intro i hi
    rw [getElem?_append_left (by rw [h.length]; exact hi)]
  refine ⟨?_, ?_, ?_, ?_, ?_, fun hno => ?_⟩
  · rw [hcount, hahead]
    show s.pending - 1 = _
    rw [h.pending]
    omega
  · rw [hcount, ← h.length]
    exact length_append
  · rw [hcount, hahead]
    intro i hi hlt
    rcases Nat.lt_succ_iff_lt_or_eq.mp hlt with hlt | rfl
    · exact (hold i hlt).trans (h.later i hi hlt)
    · exact hlast
  · rw [hcount, hahead]
    intro ha _
    rcases Nat.eq_zero_or_pos (ts.count false) with hz | hpos
    · rw [hz, decide_eq_true ha] at hlast
      exact hlast
    · exact (hold 0 hpos).trans (h.first ha hpos)
  · rw [hcount]
    intro hone
    have hz : ts.count false = 0 := by omega
    have hmem : true ∈ ts ++ [false] ↔ 0 < ahead ts := by rw [ahead_pos_iff hz]; simp
    rw [hz] at hlast
    rw [decide_eq_decide.mpr hmem]
    exact hlast
  · obtain ⟨hpend, hall⟩ := h.unlisted fun hc => hno (mem_append_left _ hc)
    refine ⟨by show s.pending - 1 = 0; omega, fun b hb => ?_⟩
    rcases mem_append.mp hb with hb | hb
    · exact hall b hb
    · rw [mem_singleton.mp hb, hpend]
      rfl

/-- All headers of a name that is listed are marked exactly if there is one header, or the
name is listed for each of them before the first one. -/
theorem Tally.Inv.all_iff (h : Tally.Inv ts s) (hmem : true ∈ ts) :
    (∀ b ∈ s.members, b = true) ↔ ts.count false ≤ max 1 (ahead ts) := by
  constructor
  · intro hall
    by_contra hgt
    obtain ⟨h1, ha⟩ := max_lt_iff.mp (Nat.lt_of_not_le hgt)
    have hlast := h.later (ts.count false - 1) (by omega) (by omega)
    rw [decide_eq_false (by omega)] at hlast
    cases hall false (mem_of_getElem? hlast)
  · intro hle b hb
    obtain ⟨i, hi⟩ := mem_iff_getElem?.mp hb
    have hlt : i < ts.count false := by
      rw [← h.length]
      exact (List.getElem?_eq_some_iff.mp hi).1
    rcases Nat.eq_zero_or_pos i with rfl | hpos
    · rcases Nat.eq_or_lt_of_le (Nat.succ_le_of_lt hlt) with hone | hmany
      · have hs := h.single hone.symm
        rw [decide_eq_true hmem, hi] at hs
        exact Option.some.inj hs
      · have hf := h.first (by omega) hlt
        rw [hi] at hf
        exact Option.some.inj hf
    · have hl := h.later i hpos hlt
      rw [decide_eq_true (by omega), hi] at hl
      exact Option.some.inj hl

section Table

def unused (k : List UInt8) (e : Name × Bool) : Bool := key e.1 = k ∧ e.2

lemma count_markRawHbh (names : List (Name × Bool)) (name : Name) :
    names.countP (unused k) = (markRawHbh names name).2.countP (unused k) +
      if (markRawHbh names name).1 = true ∧ key name = k then 1 else 0 := by
  rw [markRawHbh]
  split
  · rename_i names' hset
    obtain ⟨l, e, r, rfl, rfl, he, hp⟩ := setFirst_eq_some hset
    have hon : unused k e = decide (key name = k) := by
      rw [unused, he]
      simp [show e.2 = true from hp]
    have hoff : unused k (e.1, false) = false := by simp [unused]
    rw [countP_append, countP_append, countP_cons, countP_cons, hon, hoff]
    by_cases hk : key name = k
    · simp [hk]
      omega
    · simp [hk]
  · simp

lemma markRawHbh_iff {name : Name} :
    (markRawHbh names name).1 = decide (0 < names.countP (unused (key name))) := by
  rw [Bool.eq_iff_iff, decide_eq_true_iff, (markRawHbh_spec names name).1, countP_pos_iff]
  simp [unused]

lemma setFirst_keys (h : setFirst p f n es = some es') :
    (∃ e ∈ es', key e.1 = k) ↔ ∃ e ∈ es, key e.1 = k := by
  obtain ⟨l, x, r, rfl, rfl, -⟩ := setFirst_eq_some h
  simp only [mem_append, mem_cons, or_and_right, exists_or, exists_eq_left]

/-- What is known of the name `k` after the events `done`; `bs` are the flags of its headers -/
structure NameInv (k : List UInt8) (done : List Event) (m : Msg) (bs : List Bool) : Prop where
  tally : Tally.Inv (done.filterMap (eventOf k)) ⟨m.names.countP (unused k), bs⟩
  entry : (∃ e ∈ m.rawHdrs, key e.1 = k) ↔ bs ≠ []

/-- An event of other headers -/
theorem NameInv.other (h : NameInv k done m bs) (he : eventOf k e = none)
    (hcount : m'.names.countP (unused k) = m.names.countP (unused k))
    (hraw : (∃ e ∈ m'.rawHdrs, key e.1 = k) ↔ ∃ e ∈ m.rawHdrs, key e.1 = k) :
    NameInv k (done ++ [e]) m' bs := by
  refine ⟨?_, by rw [hraw]; exact h.entry⟩
  rw [filterMap_append, filterMap_cons_none he, filterMap_nil, append_nil,
    hcount]
  exact h.tally

lemma NameInv.own (h : NameInv k done m bs) (he : eventOf k e = some b)
    (hstep : Tally.mk (m'.names.countP (unused k)) bs' =
      (Tally.mk (m.names.countP (unused k)) bs).step b)
    (hraw : (∃ e ∈ m'.rawHdrs, key e.1 = k) ↔ bs' ≠ []) : NameInv k (done ++ [e]) m' bs' := by
  refine ⟨?_, hraw⟩
  rw [filterMap_append, filterMap_cons_some he, filterMap_nil, hstep]
  cases b with
  | true => exact h.tally.listed
  | false => exact h.tally.ended

lemma NameInv.name (h : NameInv k done m bs) (hadd : hbhParserAddData m n = some m') :
    NameInv k (done ++ [.token (.name n)]) m'
      (if k = key n ∧ bs.length = 1 then [true] else bs) := by
  rw [hbhParserAddData] at hadd
  split at hadd
  · cases hadd
  split at hadd
  · cases hadd
  split at hadd
  · rename_i hdrs' hset
    cases hadd
    have hcount : (m.names ++ [(n, false)]).countP (unused k) = m.names.countP (unused k) := by
      simp [countP_append, unused]
    by_cases hk : key n = k
    · obtain ⟨l, e, r, hes, -, he, -⟩ := setFirst_eq_some hset
      have hentry : ∃ e ∈ m.rawHdrs, key e.1 = k := ⟨e, by simp [hes], he.trans hk⟩
      have hne : bs ≠ [] := h.entry.mp hentry
      have hentry' := (setFirst_keys hset).mpr hentry
      by_cases hone : bs.length = 1
      · rw [if_pos ⟨hk.symm, hone⟩]
        refine h.own (if_pos hk) ?_ (iff_of_true hentry' (cons_ne_nil _ _))
        rw [hcount, Tally.step, if_neg hne, if_pos hone]
      · rw [if_neg fun hc => hone hc.2]
        refine h.own (if_pos hk) ?_ (iff_of_true hentry' hne)
        rw [hcount, Tally.step, if_neg hne, if_neg hone]
    · rw [if_neg fun hc => hk hc.1.symm]
      exact h.other (if_neg hk) hcount (setFirst_keys hset)
  · rename_i hset
    cases hadd
    by_cases hk : key n = k
    · have hnil : bs = [] := by
        by_contra hne
        obtain ⟨e, he, hek⟩ := h.entry.mpr hne
        cases setFirst_eq_none hset e he (hek.trans hk.symm)
      subst hnil
      rw [if_neg fun hc => absurd hc.2 Nat.zero_ne_one]
      refine h.own (if_pos hk) ?_ h.entry
      rw [Tally.step, if_pos rfl, countP_append]
      simp [unused, hk]
    · rw [if_neg fun hc => hk hc.1.symm]
      refine h.other (if_neg hk) ?_ Iff.rfl
      simp [countP_append, unused, hk]

lemma NameInv.closed (h : NameInv k done m bs) (hraw : ((hdrs kind).lookup k).getD .raw = .raw)
    {name : Name} (hclose : hdrClose kind m name = some m')
    (hapart : slotOf kind name = .raw → ∀ e ∈ m.rawHdrs, hdrNameEq e.1 name = true →
      key e.1 = key name) :
    NameInv k (done ++ [.close name]) m'
      (if k = key name ∧ slotOf kind name = .raw then bs ++ [(markRawHbh m.names name).1]
        else bs) := by
  by_cases hs : slotOf kind name = .raw
  · have hcount : m.names.countP (unused k) = _ := count_markRawHbh m.names name
    obtain ⟨hnames, hentry⟩ : m'.names = (markRawHbh m.names name).2 ∧
        ((∃ e ∈ m'.rawHdrs, key e.1 = k) ↔ (∃ e ∈ m.rawHdrs, key e.1 = k) ∨ key name = k) := by
      rw [hdrClose, hs] at hclose
      dsimp only at hclose
      split at hclose
      · rename_i hany
        cases hclose
        obtain ⟨e, he, hek⟩ := any_eq_true.mp hany
        exact ⟨rfl, (or_iff_left_of_imp fun hk => ⟨e, he, (hapart hs e he hek).trans hk⟩).symm⟩
      · cases hclose
        simp only [mem_append, mem_singleton, or_and_right, exists_or, exists_eq_left,
          true_and]
    by_cases hk : key name = k
    · rw [if_pos ⟨hk.symm, hs⟩]
      refine h.own (if_pos hk) ?_ (iff_of_true (hentry.mpr (.inr hk)) (by simp))
      rw [markRawHbh_iff, hk] at hcount ⊢
      simp only [decide_eq_true_iff, and_true] at hcount
      have hless : (markRawHbh m.names name).2.countP (unused k) =
          m.names.countP (unused k) - 1 := by
        split at hcount <;> omega
      rw [Tally.step, hnames, hless]
    · rw [if_neg fun hc => hk hc.1.symm]
      rw [if_neg fun hc => hk hc.2] at hcount
      exact h.other (if_neg hk) (by rw [hcount, hnames]; rfl) (by rw [hentry, or_iff_left hk])
  · have hk : key name ≠ k := by
      rintro rfl
      exact hs hraw
    have hsame : m'.names = m.names ∧ m'.rawHdrs = m.rawHdrs := by
      rw [hdrClose_spec hs] at hclose
      split at hclose
      · cases hclose
        exact ⟨rfl, rfl⟩
      · split at hclose
        · cases hclose
        · cases hclose
          exact ⟨rfl, rfl⟩
    rw [if_neg fun hc => hs hc.2]
    exact h.other (if_neg hk) (by rw [hsame.1]) (by rw [hsame.2])

lemma entryKey_eq {name : Name}
    (h : ∀ e ∈ m.rawHdrs, hdrNameEq e.1 name = true → key e.1 = key name) :
    entryKey m name = key name := by
  rw [entryKey]
  cases hfind : m.rawHdrs.find? fun e => hdrNameEq e.1 name with
  | none => rfl
  | some e =>
    have hcmp := find?_some hfind
    exact h e (mem_of_find?_eq_some hfind) hcmp

variable {ms : Members}

lemma NameInv.step (h : NameInv k done m (ms k)) (hraw : ((hdrs kind).lookup k).getD .raw = .raw)
    (hi : Inv kind done m) (hapart : ApartIn kind (done ++ [e]))
    (hstep : step kind m e = some m') : NameInv k (done ++ [e]) m' (memberStep kind m ms e k) := by
  cases e with
  | close name =>
    have hnames : slotOf kind name = .raw → ∀ e ∈ m.rawHdrs, hdrNameEq e.1 name = true →
        key e.1 = key name := fun hs e he =>
      hapart e.1 name (mem_append_left _ (hi.raw_closed e he)) (by simp) (hi.raw_slot e he) hs
    have hclosed := h.closed hraw hstep hnames
    rw [memberStep]
    dsimp only
    by_cases hs : slotOf kind name = .raw
    · rwa [entryKey_eq (hnames hs)]
    · rw [if_neg fun hc => hs hc.2] at hclosed ⊢
      exact hclosed
  | token t =>
    cases t with
    | name n => exact h.name hstep
    | close | keepAlive =>
      rw [HopByHop.step, Msg.token] at hstep
      split at hstep
      · cases hstep
      · cases hstep
        exact h.other rfl rfl Iff.rfl

variable {ms' : Members}

/-- The flags beside the table do not change what is parsed. -/
theorem NameInv.run (h : NameInv k done m (ms k)) (hraw : ((hdrs kind).lookup k).getD .raw = .raw)
    (hi : Inv kind done m) (hapart : ApartIn kind (done ++ events))
    (hrun : events.foldlM (h2Step kind) (m, ms) = some (m', ms')) :
    NameInv k (done ++ events) m' (ms' k) ∧ events.foldlM (HopByHop.step kind) m = some m' := by
  induction events generalizing done m ms with
  | nil =>
    cases hrun
    rw [append_nil]
    exact ⟨h, rfl⟩
  | cons e events ih =>
    rw [foldlM_cons] at hrun
    obtain ⟨x, hstep, hrest⟩ := Option.bind_eq_some_iff.mp hrun
    obtain ⟨m₁, hm, rfl⟩ := Option.map_eq_some_iff.mp hstep
    rw [← singleton_append, ← append_assoc] at hapart
    have hpart : ApartIn kind (done ++ [e]) :=
      fun a b ha hb => hapart a b (mem_append_left _ ha) (mem_append_left _ hb)
    obtain ⟨hinv, hrun'⟩ := ih (h.step hraw hi hpart hm) (hi.step hpart hm) hapart hrest
    rw [append_assoc] at hinv
    refine ⟨hinv, ?_⟩
    rw [foldlM_cons, show HopByHop.step kind m e = some m₁ from hm]
    exact hrun'

end Table

theorem true_mem_nameEvents :
    true ∈ nameEvents kind lines k ↔ ∃ n, HasToken kind lines (.name n) ∧ key n = k := by
  rw [nameEvents, mem_filterMap]
  constructor
  · rintro ⟨e, he, hev⟩
    cases e with
    | close name =>
      rw [eventOf] at hev
      split at hev <;> cases hev
    | token t =>
      cases t with
      | name n =>
        rw [eventOf] at hev
        split at hev
        · rename_i hk
          exact ⟨n, mem_events_token.mp he, hk⟩
        · cases hev
      | close | keepAlive => cases hev
  · rintro ⟨n, hn, hk⟩
    exact ⟨_, mem_events_token.mpr hn, if_pos hk⟩

/-- `Connection: foo, foo` before two headers `Foo`, and long names in two chunks -/
def listedTwice : List Line :=
  [⟨[ofAscii "Connection"], [.name [ofAscii "foo"], .name [ofAscii "foo"]]⟩,
    ⟨[ofAscii "Foo"], []⟩, ⟨longName "-A", []⟩, ⟨longName "-B", []⟩, ⟨[ofAscii "Foo"], []⟩]

/-- `Connection: foo` before two headers `Foo` -/
def listedOnce : List Line :=
  [⟨[ofAscii "Connection"], [.name [ofAscii "foo"]]⟩, ⟨[ofAscii "Foo"], []⟩,
    ⟨[ofAscii "Foo"], []⟩]

end Tempesta.Http.HopByHop
