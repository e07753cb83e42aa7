import Tempesta.Addr.Format

/-!
The text of an address is read back piece by piece: the digits of a number, what
separates two of them, and the groups left out between them.
-/

namespace Tempesta.Addr

open ScanLib DigitLib Ctype Option V6

variable {d n q i a k b : Nat} {t l text pos p : List UInt8} {ws words : List (Option Nat)}
  {gs pre post : List UInt16} {hole v : Option Nat} {port : Port} {s : V6} {groups : List Nat}
  {omitted printPort : Bool} {c : UInt8} {addr : TfwAddr} {g g' : UInt16}

lemma groupsOf_toList (v : Vector UInt16 8) : groupsOf (v.toList.map UInt16.toNat) = v := by
  apply Vector.ext
  intro i hi
  rw [groupsOf, Vector.getElem_ofFn]
  simp [hi]

open List

section v4

lemma V4.step_digit {s : V4} (hd : d < 10)
    (hb : s.octet.getD 0 * 10 + d ≤ if s.port then 0xffff else 255) :
    s.step (hexAsc d) = .inl { s with octet := some (s.octet.getD 0 * 10 + d) } := by
  obtain ⟨hdig, hval⟩ := hexAsc_dec d hd
  have hoctet : s.octet.elim (digit (hexAsc d)) (· * 10 + digit (hexAsc d)) =
      s.octet.getD 0 * 10 + d := by
    cases s.octet with
    | none => rw [elim_none, hval, getD_none, Nat.zero_mul, Nat.zero_add]
    | some o => rw [elim_some, hval, getD_some]
  rw [V4.step, if_pos hdig]
  rw [hoctet, if_neg]
  rintro (⟨hp, h⟩ | h)
  · rw [hp, if_neg (by nofun)] at hb
    omega
  · split at hb <;> omega

lemma V4.scan_digits (s : V4) (ds : List Nat) (l : List UInt8) (hds : ∀ d ∈ ds, d < 10)
    (hn : s.octet = some n) (hb : value 10 n ds ≤ if s.port then 0xffff else 255) :
    scan V4.step s (ds.map hexAsc ++ l) =
      scan V4.step { s with octet := some (value 10 n ds) } l := by
  induction ds generalizing s n with
  | nil =>
    rw [value_nil, ← hn]
    rfl
  | cons d ds ih =>
    obtain ⟨hd, hds⟩ := List.forall_mem_cons.mp hds
    have hle : s.octet.getD 0 * 10 + d ≤ if s.port then 0xffff else 255 := by
      rw [hn]
      exact Nat.le_trans (le_value (by decide)) hb
    rw [map_cons, cons_append, scan_next (V4.step_digit hd hle), hn]
    exact ih { s with octet := some (n * 10 + d) } hds rfl hb

variable {port : Bool} {a : List Nat}

lemma V4.scan_number (l : List UInt8) (ht : Spells 10 q t) (hb : q ≤ if port then 0xffff else 255) :
    scan V4.step ⟨none, i, port, a⟩ (t ++ l) = scan V4.step ⟨some q, i, port, a⟩ l := by
  obtain ⟨d, ds, rfl, hds, rfl⟩ := ht
  obtain ⟨hd, hds⟩ := List.forall_mem_cons.mp hds
  have hle : 0 * 10 + d ≤ if port then 0xffff else 255 := Nat.le_trans (le_value (by decide)) hb
  rw [map_cons, cons_append,
    scan_next (V4.step_digit (s := ⟨none, i, port, a⟩) hd hle)]
  exact V4.scan_digits ⟨some (0 * 10 + d), i, port, a⟩ ds l hds rfl hb

lemma V4.scan_dot (hi : i < 4) :
    scan V4.step ⟨some q, i, port, a⟩ (0x2e :: l) =
      scan V4.step ⟨none, i + 1, false, a ++ [q]⟩ l := by
  refine scan_next ?_
  rw [V4.step, if_neg (by decide)]
  exact if_pos (.inl ⟨rfl, hi⟩)

lemma V4.scan_colon :
    scan V4.step ⟨some q, 3, port, a⟩ (0x3a :: l) = scan V4.step ⟨none, 4, true, a ++ [q]⟩ l := by
  refine scan_next ?_
  rw [V4.step, if_neg (by decide)]
  exact if_pos (.inr ⟨rfl, rfl⟩)

lemma V4.scan_slash (s : V4) (l : List UInt8) (h : 0x2f ∈ l) : scan V4.step s l = .inr () := by
  induction l generalizing s with
  | nil => cases h
  | cons c l ih =>
    cases hs : s.step c with
    | inr r => exact scan_stop hs
    | inl s' =>
      rw [scan_next hs]
      refine ih s' (mem_of_ne_of_mem ?_ h)
      rintro rfl
      have hstop : s.step 0x2f = .inr () := by
        rw [V4.step, if_neg (by decide)]
        cases s.octet with
        | none => rfl
        | some o => exact if_neg (by rintro (⟨h, -⟩ | ⟨h, -⟩) <;> cases h)
      rw [hstop] at hs
      cases hs

end v4

section v6

/-- The words `ws` were read and the next byte belongs to word `i`. -/
def V6.read (port : Port) (hole : Option Nat) (ws : List (Option Nat)) (i : Nat) : V6 :=
  { words := ws ++ List.replicate (9 - ws.length) none, hole, i, port }

@[simp]
lemma V6.read_i : (V6.read port hole ws i).i = i := rfl

@[simp]
lemma V6.read_port : (V6.read port hole ws i).port = port := rfl

@[simp]
lemma V6.read_hole : (V6.read port hole ws i).hole = hole := rfl

lemma V6.read_none (h : ws.length ≤ 8) :
    V6.read port hole (ws ++ [none]) i = V6.read port hole ws i := by
  have hlen : 9 - ws.length = (8 - ws.length) + 1 := by omega
  have hlen' : 9 - (ws ++ [(none : Option Nat)]).length = 8 - ws.length := by
    rw [length_append, length_singleton]
    omega
  rw [V6.read, V6.read, hlen, hlen', replicate_succ, append_assoc, singleton_append]

lemma V6.word_new (h : ws.length ≤ 8) :
    (V6.read port hole ws i).word ws.length = none := by
  rw [word, V6.read, getElem?_append_right (Nat.le_refl _), Nat.sub_self,
    getElem?_replicate_of_lt (by omega)]
  rfl

variable {w : Option Nat}

lemma V6.word_last :
    (V6.read port hole (ws ++ [w]) i).word ws.length = w := by
  rw [word, V6.read, append_assoc, getElem?_append_right (Nat.le_refl _), Nat.sub_self]
  rfl

lemma V6.set_new (h : ws.length ≤ 8) :
    (V6.read port hole ws i).words.set ws.length w = (V6.read port hole (ws ++ [w]) i).words := by
  have hlen : 9 - ws.length = (8 - ws.length) + 1 := by omega
  have hlen' : 9 - (ws ++ [w]).length = 8 - ws.length := by
    rw [length_append, length_singleton]
    omega
  rw [V6.read, V6.read]
  rw [set_append_right _ _ (Nat.le_refl _), Nat.sub_self, hlen, hlen', replicate_succ,
    set_cons_zero, append_assoc, singleton_append]

lemma V6.set_last :
    (V6.read port hole (ws ++ [v]) i).words.set ws.length w =
      (V6.read port hole (ws ++ [w]) i).words := by
  rw [V6.read, V6.read]
  rw [append_assoc, set_append_right _ _ (Nat.le_refl _), Nat.sub_self,
    singleton_append, set_cons_zero, append_assoc, length_append,
    length_append]
  rfl

lemma V6.read_not_full (h : i ≤ 7) : (V6.read port hole ws i).full = false := by
  rw [full, read_i, decide_eq_false (by omega), Bool.false_and]

lemma V6.char_hex (hd : d < 16) : s.char (hexAsc d) = s.xdigit (hexAsc d) := by
  obtain ⟨-, h1, h2⟩ := hexAsc_ne d hd
  rw [char, if_neg h1, if_neg h2, if_pos (hexAsc_hex d hd).1]

/-- One more digit of a group; `w` is what was read of it. -/
theorem V6.run_xdigit (hd : d < 16) (hf : s.full = false) (hm : s.ipv4Mapped = false)
    (hp : s.port ≠ .closed) (hw : s.word s.i = w) (hb : w.getD 0 * 16 + d ≤ 0xffff) :
    v6Run s (hexAsc d :: text) =
      v6Run { s with words := s.words.set s.i (some (w.getD 0 * 16 + d)) } text := by
  have hplain : ¬ (s.ipv4Mapped = true ∨ s.port = .closed) := by
    rw [hm]
    rintro (h | h)
    · cases h
    · exact hp h
  have hx : s.xdigit (hexAsc d) =
      some { s with words := s.words.set s.i (some (w.getD 0 * 16 + d)) } := by
    rw [xdigit, if_neg hplain, (hexAsc_hex d hd).2, hw]
    exact if_neg (by omega)
  rw [v6Run_char hf (hexAsc_ne d hd).1, char_hex hd, hx]
  rfl

lemma V6.run_digits (ds : List Nat) (hds : ∀ d ∈ ds, d < 16) (hi : ws.length ≤ 7)
    (hp : port ≠ .closed) (hb : value 16 n ds ≤ 0xffff) :
    v6Run (V6.read port hole (ws ++ [some n]) ws.length) (ds.map hexAsc ++ text) =
      v6Run (V6.read port hole (ws ++ [some (value 16 n ds)]) ws.length) text := by
  induction ds generalizing n with
  | nil => rfl
  | cons d ds ih =>
    obtain ⟨hd, hds⟩ := List.forall_mem_cons.mp hds
    have hle : n * 16 + d ≤ 0xffff := Nat.le_trans (le_value (by decide)) hb
    rw [map_cons, cons_append,
      run_xdigit (w := some n) hd (read_not_full hi) rfl hp word_last hle,
      read_i, set_last]
    exact ih hds hb

lemma V6.run_group (hi : ws.length ≤ 7) (hp : port ≠ .closed) (ht : Spells 16 q t)
    (hq : q ≤ 0xffff) :
    v6Run (V6.read port hole ws ws.length) (t ++ text) =
      v6Run (V6.read port hole (ws ++ [some q]) ws.length) text := by
  obtain ⟨d, ds, rfl, hds, rfl⟩ := ht
  obtain ⟨hd, hds⟩ := List.forall_mem_cons.mp hds
  have hle : 0 * 16 + d ≤ 0xffff := Nat.le_trans (le_value (by decide)) hq
  rw [map_cons, cons_append,
    run_xdigit (w := none) hd (read_not_full hi) rfl hp (word_new (by omega)) hle,
    read_i, set_new (by omega)]
  exact run_digits ds hds hi hp hq

lemma V6.run_colon {w : Nat} (hi : ws.length ≤ 7) (hp : port ≠ .closed)
    (ht : text.head? ≠ some 0x3a) :
    v6Run (V6.read port hole (ws ++ [some w]) ws.length) (0x3a :: text) =
      v6Run (V6.read port hole (ws ++ [some w]) (ws.length + 1)) text := by
  rw [v6Run_colon (read_not_full hi) ht, colon, read_i, word_last,
    if_pos (isSome_some), next, read_port, if_neg hp]
  rfl

lemma V6.run_gap {w : Nat} (hi : ws.length ≤ 7) (hp : port ≠ .closed) :
    v6Run (V6.read port hole (ws ++ [some w]) ws.length) (0x3a :: 0x3a :: text) =
      v6Run (V6.read port (some (ws.length + 1)) (ws ++ [some w] ++ [none]) (ws.length + 2))
        text := by
  rw [v6Run_gap (read_not_full hi), gap, read_i, word_last,
    if_pos (isSome_some), next, read_port, if_neg hp,
    read_none (by rw [length_append, length_singleton]; omega)]
  rfl

lemma V6.run_gap_first (hp : port ≠ .closed) :
    v6Run (V6.read port hole [] 0) (0x3a :: 0x3a :: text) =
      v6Run (V6.read port (some 0) [none] 1) text := by
  have hword : (V6.read port hole [] 0).word 0 = none := rfl
  rw [v6Run_gap (read_not_full (by decide)), gap, read_i, hword,
    if_neg (by nofun), next, read_port, if_neg hp]
  rfl

/-- The text of groups with a `:` between them. -/
def joinGroups : List UInt16 → List UInt8
  | [] => []
  | [g] => tfwPutIpv6DigitGroup g
  | g :: g' :: gs => tfwPutIpv6DigitGroup g ++ 0x3a :: joinGroups (g' :: gs)

def wordsOf (gs : List UInt16) : List (Option Nat) := gs.map fun g => some g.toNat

lemma putGroup_head (g : UInt16) (l : List UInt8) :
    (tfwPutIpv6DigitGroup g ++ l).head? ≠ some 0x3a := by
  obtain ⟨d, ds, ht, hds, -⟩ := putGroup_spells g
  obtain ⟨hd, -⟩ := List.forall_mem_cons.mp hds
  rw [ht]
  exact fun e => (hexAsc_ne d hd).1 (Option.some.inj e)

lemma joinGroups_cons (g : UInt16) (h : gs ≠ []) :
    joinGroups (g :: gs) = tfwPutIpv6DigitGroup g ++ 0x3a :: joinGroups gs := by
  cases gs with
  | nil => exact absurd rfl h
  | cons g' gs => rfl

lemma joinGroups_head (h : gs ≠ []) (l : List UInt8) :
    (joinGroups gs ++ l).head? ≠ some 0x3a := by
  cases gs with
  | nil => exact absurd rfl h
  | cons g gs =>
    cases gs with
    | nil => exact putGroup_head g l
    | cons g' gs =>
      rw [joinGroups, append_assoc]
      exact putGroup_head g _

lemma V6.run_groups (gs : List UInt16) (g : UInt16) (hi : ws.length + gs.length ≤ 7)
    (hp : port ≠ .closed) :
    v6Run (V6.read port hole ws ws.length) (joinGroups (gs ++ [g]) ++ text) =
      v6Run (V6.read port hole (ws ++ wordsOf gs ++ [some g.toNat]) (ws ++ wordsOf gs).length)
        text := by
  have hq (g : UInt16) : g.toNat ≤ 0xffff := Nat.le_of_lt_succ g.toNat_lt
  induction gs generalizing ws with
  | nil =>
    rw [wordsOf, map_nil, append_nil]
    exact run_group (by omega) hp (putGroup_spells g) (hq g)
  | cons x gs ih =>
    rw [length_cons] at hi
    have hlen : (ws ++ [some x.toNat]).length = ws.length + 1 := length_append
    have happ : ws ++ wordsOf (x :: gs) = ws ++ [some x.toNat] ++ wordsOf gs := by
      rw [append_assoc]
      rfl
    rw [cons_append, joinGroups_cons x (by simp), append_assoc,
      run_group (by omega) hp (putGroup_spells x) (hq x), cons_append,
      run_colon (by omega) hp (joinGroups_head (by simp) text), ← hlen, ih (by omega), happ]

/-- One more digit of the port; `w` is what was read of it. -/
theorem V6.run_port_digit (hd : d < 10) (hi : s.i = 8) (hp : s.port = .closed) (hw : s.word 8 = w)
    (hb : w.getD 0 * 10 + d ≤ 0xffff) :
    v6Run s (hexAsc d :: text) =
      v6Run { s with words := s.words.set 8 (some (w.getD 0 * 10 + d)) } text := by
  have hd' : d < 16 := by omega
  have hf : s.full = false := by
    rw [full, hi, hp]
    rfl
  have hx : s.xdigit (hexAsc d) =
      some { s with words := s.words.set 8 (some (w.getD 0 * 10 + d)) } := by
    rw [xdigit, if_pos (.inr hp), if_neg (by rw [(hexAsc_dec d hd).1]; nofun),
      (hexAsc_dec d hd).2, hp, if_pos (by nofun), hi, hw, if_neg (by omega)]
  rw [v6Run_char hf (hexAsc_ne d hd').1, char_hex hd', hx]
  rfl

lemma V6.run_port_digits (ds : List Nat) (hds : ∀ d ∈ ds, d < 10) (hi : s.i = 8)
    (hp : s.port = .closed) (hw : 8 < s.words.length) (hb : value 10 n ds ≤ 0xffff) :
    v6Run { s with words := s.words.set 8 (some n) } (ds.map hexAsc) =
      some { s with words := s.words.set 8 (some (value 10 n ds)) } := by
  induction ds generalizing n with
  | nil => rfl
  | cons d ds ih =>
    obtain ⟨hd, hds⟩ := List.forall_mem_cons.mp hds
    have hle : n * 10 + d ≤ 0xffff := Nat.le_trans (le_value (by decide)) hb
    have hword : ({ s with words := s.words.set 8 (some n) } : V6).word 8 = some n := by
      rw [word, getElem?_set_self hw]
      rfl
    rw [map_cons]
    refine (run_port_digit (s := { s with words := s.words.set 8 (some n) })
      hd hi hp hword hle).trans ?_
    rw [set_set]
    exact ih hds hb

lemma V6.run_port {w : Nat} (hi : ws.length ≤ 7) (ht : Spells 10 q t) (hq : q ≤ 0xffff) :
    v6Run (V6.read .opened hole (ws ++ [some w]) ws.length) (0x5d :: 0x3a :: t) =
      some { V6.read .closed hole (ws ++ [some w]) 8 with
        words := (V6.read .closed hole (ws ++ [some w]) 8).words.set 8 (some q) } := by
  obtain ⟨d, ds, rfl, hds, rfl⟩ := ht
  obtain ⟨hd, hds⟩ := List.forall_mem_cons.mp hds
  have hcolon : ((d :: ds).map hexAsc).head? ≠ some 0x3a :=
    fun e => (hexAsc_ne d (by omega)).1 (Option.some.inj e)
  have hclose : (V6.read .opened hole (ws ++ [some w]) ws.length).char 0x5d =
      some (V6.read .closed hole (ws ++ [some w]) ws.length) := rfl
  have hnext : (V6.read .closed hole (ws ++ [some w]) ws.length).colon =
      some (V6.read .closed hole (ws ++ [some w]) 8) := by
    rw [colon, read_i, word_last, if_pos isSome_some]
    rfl
  have hlen : (V6.read .closed hole (ws ++ [some w]) 8).words.length = 9 := by
    rw [V6.read]
    simp
    omega
  have hword : (V6.read .closed hole (ws ++ [some w]) 8).word 8 = none := by
    rw [word, V6.read, getElem?_append_right (by simp; omega),
      getElem?_replicate_of_lt (by simp; omega)]
    rfl
  have hle : 0 * 10 + d ≤ 0xffff := by omega
  rw [v6Run_char (read_not_full hi) (by decide), hclose]
  change v6Run _ (0x3a :: _) = _
  rw [v6Run_colon (read_not_full hi) hcolon, hnext]
  change v6Run _ (hexAsc d :: ds.map hexAsc) = _
  rw [run_port_digit (w := none) hd rfl rfl hword hle]
  exact run_port_digits ds hds rfl rfl (by omega) hq

end v6

lemma copyWords_all : copyWords words hole n i 0 groups = groups := by
  cases n with
  | zero => rfl
  | succ n =>
    cases i with
    | zero => rfl
    | succ i => rfl

lemma copyWords_none (h : words[i]? = some none) :
    copyWords words hole (n + 1) (i + 1) (a + 1) groups =
      if hole.all (· < i) then copyWords words hole n i (a + 1) groups
      else if a = i ∧ i ≠ 0 then copyWords words hole n i a (0 :: groups)
      else copyWords words hole n (i + 1) a (0 :: groups) := by
  rw [copyWords, h]
  rfl

lemma copyWords_groups (l r : List (Option Nat)) (gs : List UInt16) :
    copyWords (l ++ wordsOf gs ++ r) hole (n + gs.length) (l.length + gs.length) (a + gs.length)
      groups = copyWords (l ++ wordsOf gs ++ r) hole n l.length a
        (gs.map UInt16.toNat ++ groups) := by
  induction gs using reverseRecOn generalizing r groups with
  | nil => rfl
  | append_singleton gs g ih =>
    have hget : (l ++ wordsOf (gs ++ [g]) ++ r)[l.length + gs.length]? = some (some g.toNat) := by
      simp [wordsOf]
    have happ : l ++ wordsOf (gs ++ [g]) ++ r = l ++ wordsOf gs ++ (some g.toNat :: r) := by
      simp [wordsOf]
    rw [length_append, length_singleton, ← Nat.add_assoc, ← Nat.add_assoc,
      ← Nat.add_assoc, copyWords, hget, happ, map_append, append_assoc (gs.map _)]
    exact ih (some g.toNat :: r)

lemma copyWords_skip (l r : List (Option Nat)) (m : Nat) (h : hole.all (· < l.length) = true) :
    copyWords (l ++ List.replicate m none ++ r) hole (n + m) (l.length + m) (a + 1) groups =
      copyWords (l ++ List.replicate m none ++ r) hole n l.length (a + 1) groups := by
  induction m generalizing r with
  | zero => rfl
  | succ m ih =>
    have hget : (l ++ replicate (m + 1) none ++ r)[l.length + m]? = some none := by
      rw [append_assoc, getElem?_append_right (by omega), Nat.add_sub_cancel_left,
        getElem?_append_left (by rw [length_replicate]; omega),
        getElem?_replicate_of_lt (by omega)]
    have hhole : hole.all (· < l.length + m) = true := by
      cases hole with
      | none => rfl
      | some k =>
        have hk : k < l.length := of_decide_eq_true h
        exact decide_eq_true (by omega)
    have happ : l ++ replicate (m + 1) none ++ r = l ++ replicate m none ++ (none :: r) := by
      rw [replicate_succ', ← append_assoc, append_assoc _ [none]]
      rfl
    rw [← Nat.add_assoc, ← Nat.add_assoc, copyWords_none hget, if_pos hhole, happ]
    exact ih (none :: r)

lemma copyWords_hole (k : Nat) (h : words[i]? = some none) :
    copyWords words (some i) (n + (k + 1)) (i + 1) (i + (k + 1)) groups =
      copyWords words (some i) n i i (List.replicate (k + 1) 0 ++ groups) := by
  have hhole : ¬ (some i).all (· < i) = true := by simp
  induction k generalizing groups with
  | zero =>
    rw [Nat.zero_add, copyWords_none h, if_neg hhole]
    cases i with
    | zero =>
      rw [if_neg (fun e => e.2 rfl), copyWords_all, copyWords_all]
      rfl
    | succ i => exact if_pos ⟨rfl, Nat.succ_ne_zero i⟩
  | succ k ih =>
    rw [← Nat.add_assoc n, ← Nat.add_assoc i, copyWords_none h, if_neg hhole,
      if_neg (fun e => by omega), ih, replicate_succ' (n := k + 1), append_assoc]
    rfl

lemma copyWords_full (hlen : gs.length = 8) (x : Option Nat) :
    copyWords (wordsOf gs ++ [x]) none 16 8 8 [] = gs.map UInt16.toNat := by
  have h : copyWords ([] ++ wordsOf gs ++ [x]) none (8 + gs.length) (0 + gs.length)
    (0 + gs.length) [] =
      _ := copyWords_groups [] [x] gs
  rw [hlen] at h
  exact h.trans (by rw [copyWords_all, append_nil])

lemma copyWords_split (x : Option Nat) (hlen : pre.length + (k + 1) + post.length = 8) :
    copyWords (wordsOf pre ++ [none] ++ wordsOf post ++ List.replicate k none ++ [x])
      (some pre.length) 16 8 8 [] = (pre ++ List.replicate (k + 1) 0 ++ post).map UInt16.toNat := by
  have hpre : (wordsOf pre).length = pre.length := length_map _
  have hfront : (wordsOf pre ++ [none]).length = pre.length + 1 := by
    rw [length_append, hpre, length_singleton]
  have hback : (wordsOf pre ++ [none] ++ wordsOf post).length = pre.length + 1 + post.length := by
    rw [length_append, hfront, wordsOf, length_map]
  have hskip : (some pre.length).all
      (· < (wordsOf pre ++ [none] ++ wordsOf post).length) = true := by
    rw [hback]
    exact decide_eq_true (by omega)
  have hget : (wordsOf pre ++ [none] ++ wordsOf post ++ replicate k none ++ [x])[pre.length]? =
      some none := by
    rw [append_assoc, append_assoc, append_assoc,
      getElem?_append_right (by omega), hpre, Nat.sub_self]
    rfl
  have hmap : (pre ++ replicate (k + 1) 0 ++ post).map UInt16.toNat =
      pre.map UInt16.toNat ++ (replicate (k + 1) 0 ++ post.map UInt16.toNat) := by simp
  rw [hmap]
  calc copyWords (wordsOf pre ++ [none] ++ wordsOf post ++ replicate k none ++ [x])
        (some pre.length) 16 8 8 []
      = copyWords (wordsOf pre ++ [none] ++ wordsOf post ++ replicate k none ++ [x])
          (some pre.length) (8 - k + pre.length + (k + 1) + post.length + k)
          ((wordsOf pre ++ [none] ++ wordsOf post).length + k) (7 + 1) [] := by
        rw [hback]
        congr 1 <;> omega
    _ = copyWords (wordsOf pre ++ [none] ++ wordsOf post ++ replicate k none ++ [x])
          (some pre.length) (8 - k + pre.length + (k + 1) + post.length)
          ((wordsOf pre ++ [none]).length + post.length)
            (pre.length + (k + 1) + post.length) [] := by
        rw [copyWords_skip _ _ _ hskip, hback, hfront, hlen]
    _ = copyWords (wordsOf pre ++ [none] ++ wordsOf post ++ replicate k none ++ [x])
          (some pre.length) (8 - k + pre.length + (k + 1)) (pre.length + 1) (pre.length + (k + 1))
          (post.map UInt16.toNat) := by
        rw [append_assoc _ (replicate k none), copyWords_groups, hfront, append_nil]
    _ = copyWords ([] ++ wordsOf pre ++ ([none] ++ wordsOf post ++ replicate k none ++ [x]))
          (some pre.length) (8 - k + pre.length) (0 + pre.length) (0 + pre.length)
          (replicate (k + 1) 0 ++ post.map UInt16.toNat) := by
        rw [copyWords_hole k hget, Nat.zero_add]
        simp
    _ = pre.map UInt16.toNat ++ (replicate (k + 1) 0 ++ post.map UInt16.toNat) := by
        exact (copyWords_groups [] _ pre).trans copyWords_all

lemma fmtGroups_plain (gs : List UInt16) (g : UInt16) (h : omitted = true ∨ ∀ x ∈ gs, x ≠ 0)
    (pos : List UInt8) : fmtGroups pos omitted (gs ++ [g]) = pos ++ joinGroups (gs ++ [g]) := by
  induction gs generalizing pos with
  | nil => rfl
  | cons x gs ih =>
    have hx : x ≠ 0 ∨ omitted = true := by
      cases h with
      | inl h => exact .inr h
      | inr h => exact .inl (h x mem_cons_self)
    have hgs : omitted = true ∨ ∀ x ∈ gs, x ≠ 0 :=
      h.imp_right fun h y hy => h y (mem_cons_of_mem x hy)
    obtain ⟨y, ys, hys⟩ : ∃ y ys, gs ++ [g] = y :: ys :=
      exists_cons_of_ne_nil (by simp)
    have ih := ih hgs (pos ++ tfwPutIpv6DigitGroup x ++ [0x3a])
    rw [hys] at ih
    rw [cons_append, hys, fmtGroups, if_pos hx, ih, joinGroups]
    simp

/-- A run of zeros is written as one `:` more than there is already. -/
theorem fmtGroups_zeros (k : Nat) (gs : List UInt16) (g : UInt16) (h : gs.head? ≠ some 0)
    (pos : List UInt8) :
    fmtGroups pos false (List.replicate (k + 1) 0 ++ (gs ++ [g])) =
      (if pos.getLast? = some 0x3a then pos else pos ++ [0x3a]) ++
        0x3a :: joinGroups (gs ++ [g]) := by
  induction k with
  | zero =>
    have hplain := fmtGroups_plain gs g (.inl rfl)
      ((if pos.getLast? = some 0x3a then pos else pos ++ [0x3a]) ++ [0x3a])
    cases gs with
    | nil =>
      rw [replicate_one, singleton_append, nil_append, fmtGroups,
        if_neg (by simp), if_pos (.inr rfl)]
      exact hplain.trans (append_assoc _ _ _)
    | cons x gs =>
      have hx : x ≠ 0 := fun e => h (congrArg some e)
      rw [replicate_one, singleton_append, cons_append, fmtGroups,
        if_neg (by simp), if_pos (.inl hx)]
      exact hplain.trans (append_assoc _ _ _)
  | succ k ih =>
    rw [replicate_succ, replicate_succ, cons_append, cons_append, fmtGroups,
      if_neg (by simp), if_neg (by simp), ← cons_append, ← replicate_succ, ih]

lemma fmtGroups_front (pre rest : List UInt16) (hpre : ∀ x ∈ pre, x ≠ 0) (hrest : rest ≠ [])
    (pos : List UInt8) :
    fmtGroups pos false (pre ++ rest) =
      fmtGroups (pos ++ pre.flatMap fun g => tfwPutIpv6DigitGroup g ++ [0x3a]) false rest := by
  induction pre generalizing pos with
  | nil => simp
  | cons x pre ih =>
    obtain ⟨hx, hpre⟩ := List.forall_mem_cons.mp hpre
    obtain ⟨y, ys, hys⟩ : ∃ y ys, pre ++ rest = y :: ys := exists_cons_of_ne_nil (by simp [hrest])
    have ih := ih hpre (pos ++ tfwPutIpv6DigitGroup x ++ [0x3a])
    rw [hys] at ih
    rw [cons_append, hys, fmtGroups, if_pos (.inl hx), ih, flatMap_cons]
    simp

lemma flatMap_join (g : UInt16) (gs : List UInt16) :
    ((g :: gs).flatMap fun g => tfwPutIpv6DigitGroup g ++ [0x3a]) =
      joinGroups (g :: gs) ++ [0x3a] := by
  induction gs generalizing g with
  | nil => simp [joinGroups]
  | cons g' gs ih =>
    rw [flatMap_cons, ih, joinGroups]
    simp

lemma fmtGroups_split (pre : List UInt16) (k : Nat) (gs : List UInt16) (g : UInt16)
    (hpre : ∀ x ∈ pre, x ≠ 0) (h : gs.head? ≠ some 0) (hpos : pos.getLast? ≠ some 0x3a) :
    fmtGroups pos false (pre ++ (List.replicate (k + 1) 0 ++ (gs ++ [g]))) =
      pos ++ (joinGroups pre ++ 0x3a :: 0x3a :: joinGroups (gs ++ [g])) := by
  rw [fmtGroups_front pre _ hpre (by simp), fmtGroups_zeros k gs g h]
  cases pre with
  | nil =>
    rw [flatMap_nil, append_nil, if_neg hpos, joinGroups]
    simp
  | cons x pre =>
    rw [flatMap_join, if_pos (by simp)]
    simp

lemma groups_cases (gs : List UInt16) :
    (∀ x ∈ gs, x ≠ 0) ∨
      ∃ pre k post, gs = pre ++ (List.replicate (k + 1) 0 ++ post) ∧ (∀ x ∈ pre, x ≠ 0) ∧
        post.head? ≠ some 0 := by
  induction gs with
  | nil => exact .inl nofun
  | cons x gs ih =>
    by_cases hx : x = 0
    · subst hx
      refine .inr ?_
      rcases ih with hall | ⟨pre, k, post, rfl, hpre, hpost⟩
      · refine ⟨[], 0, gs, rfl, nofun, fun e => ?_⟩
        exact hall 0 (mem_of_mem_head? e) rfl
      · cases pre with
        | nil => exact ⟨[], k + 1, post, rfl, nofun, hpost⟩
        | cons y pre =>
          refine ⟨[], 0, _, rfl, nofun, fun e => ?_⟩
          exact hpre y mem_cons_self (Option.some.inj e)
    · rcases ih with hall | ⟨pre, k, post, rfl, hpre, hpost⟩
      · exact .inl (List.forall_mem_cons.mpr ⟨hx, hall⟩)
      · exact .inr ⟨x :: pre, k, post, rfl, List.forall_mem_cons.mpr ⟨hx, hpre⟩, hpost⟩

/-- What the text of the groups is read as: the words up to the last one, a hole if
there are fewer than eight, and the groups again when they are copied. -/
structure Reads (gs : List UInt16) (t : List UInt8) (hole : Option Nat) (ws : List (Option Nat))
    (w : Nat) : Prop where
  len : ws.length ≤ 7
  hole_of_lt : ws.length < 7 → hole ≠ none
  run : ∀ port text, port ≠ Port.closed →
    v6Run (V6.read port none [] 0) (t ++ text) =
      v6Run (V6.read port hole (ws ++ [some w]) ws.length) text
  copy : ∀ x, copyWords (ws ++ [some w] ++ List.replicate (7 - ws.length) none ++ [x])
    hole 16 8 8 [] =
    gs.map UInt16.toNat

lemma wordsOf_concat (gs : List UInt16) (g : UInt16) :
    wordsOf (gs ++ [g]) = wordsOf gs ++ [some g.toNat] := List.map_append

lemma reads_plain (gs : List UInt16) (g : UInt16) (hlen : gs.length = 7) :
    Reads (gs ++ [g]) (joinGroups (gs ++ [g])) none (wordsOf gs) g.toNat where
  len := by simp [wordsOf, hlen]
  hole_of_lt := by simp [wordsOf, hlen]
  run port text hp := run_groups gs g (by simp [hlen]) hp
  copy x := by
    have hpad : 7 - (wordsOf gs).length = 0 := by simp [wordsOf, hlen]
    rw [hpad, ← wordsOf_concat, replicate_zero, append_nil]
    exact copyWords_full (by simp [hlen]) x

lemma V6.run_front (pre : List UInt16) (text : List UInt8) (hp : port ≠ .closed)
    (hlen : pre.length ≤ 6) :
    v6Run (V6.read port none [] 0) (joinGroups pre ++ (0x3a :: 0x3a :: text)) =
      v6Run (V6.read port (some pre.length) (wordsOf pre ++ [none]) (pre.length + 1)) text := by
  obtain rfl | ⟨pre, g, rfl⟩ := eq_nil_or_concat' pre
  · exact run_gap_first hp
  · have hpre : (wordsOf pre).length = pre.length := length_map _
    have hg : (pre ++ [g]).length = pre.length + 1 := by simp
    rw [hg] at hlen
    have hgroups : v6Run (V6.read port none [] 0)
        (joinGroups (pre ++ [g]) ++ (0x3a :: 0x3a :: text)) = _ :=
      run_groups pre g (by simp; omega) hp
    rw [hgroups, nil_append, run_gap (by omega) hp, hpre, hg, wordsOf_concat]

lemma reads_split (pre : List UInt16) (k : Nat) (gs : List UInt16) (g : UInt16)
    (hlen : pre.length + (k + 1) + gs.length = 7) :
    Reads (pre ++ (List.replicate (k + 1) 0 ++ (gs ++ [g])))
      (joinGroups pre ++ 0x3a :: 0x3a :: joinGroups (gs ++ [g])) (some pre.length)
      (wordsOf pre ++ [none] ++ wordsOf gs) g.toNat where
  len := by simp [wordsOf]; omega
  hole_of_lt _ := nofun
  run port text hp := by
    have hfront : (wordsOf pre ++ [none]).length = pre.length + 1 := by simp [wordsOf]
    rw [append_assoc, cons_append, cons_append, run_front pre _ hp (by omega),
      ← hfront]
    exact run_groups gs g (by omega) hp
  copy x := by
    have hpad : 7 - (wordsOf pre ++ [none] ++ wordsOf gs).length = k := by
      simp [wordsOf]
      omega
    rw [hpad, append_assoc _ (wordsOf gs), ← wordsOf_concat, ← append_assoc pre]
    exact copyWords_split x (by simp; omega)

lemma exists_reads (gs : List UInt16) (hlen : gs.length = 8) (hpos : pos.getLast? ≠ some 0x3a) :
    ∃ t hole ws w, fmtGroups pos false gs = pos ++ t ∧ Reads gs t hole ws w := by
  obtain ⟨gs, g, rfl⟩ : ∃ front last, gs = front ++ [last] :=
    eq_nil_or_concat' gs |>.resolve_left (by rintro rfl; cases hlen)
  have hlen : gs.length = 7 := by simpa using hlen
  rcases groups_cases gs with hall | ⟨pre, k, post, rfl, hpre, hpost⟩
  · exact ⟨_, _, _, _, fmtGroups_plain gs g (.inr hall) pos, reads_plain gs g hlen⟩
  · rw [append_assoc, append_assoc]
    refine ⟨_, _, _, _, fmtGroups_split pre k post g hpre hpost hpos, reads_split pre k post g ?_⟩
    simp at hlen
    omega

section finish

variable {w : Nat}

lemma Reads.words_unset (h : Reads gs t hole ws w) :
    (V6.read port hole (ws ++ [some w]) i).words =
      ws ++ [some w] ++ List.replicate (7 - ws.length) none ++ [none] := by
  have hlen := h.len
  have hpad : 9 - (ws ++ [some w]).length = 7 - ws.length + 1 := by
    simp
    omega
  rw [V6.read]
  rw [hpad, replicate_succ', ← append_assoc]

lemma Reads.words_port (h : Reads gs t hole ws w) :
    (V6.read port hole (ws ++ [some w]) i).words.set 8 (some q) =
      ws ++ [some w] ++ List.replicate (7 - ws.length) none ++ [some q] := by
  have hlen := h.len
  have h8 : (ws ++ [some w] ++ replicate (7 - ws.length) (none : Option Nat)).length = 8 := by
    simp
    omega
  rw [h.words_unset, set_append_right _ _ (by omega), h8]
  rfl

lemma V6.finish_unset (hm : s.ipv4Mapped = false) (hp : s.port = .unset)
    (hh : s.i < 7 → s.hole ≠ none) :
    s.finish = some ⟨groupsOf (copyWords s.words s.hole 16 8 8 []), UInt16.ofNat defPort⟩ := by
  rw [finish, hm, hp, if_neg]
  · rfl
  · rintro (h | ⟨h, -⟩ | ⟨h, -⟩ | ⟨h, -⟩ | ⟨h, -⟩ | ⟨-, hi, h⟩)
    · cases h
    · exact h rfl
    · cases h
    · cases h
    · cases h
    · exact hh hi h

lemma V6.finish_closed (hm : s.ipv4Mapped = false) (hp : s.port = .closed) (hi : s.i = 8)
    (hw : s.word 8 = some q) (hq : q ≠ 0) :
    s.finish = some ⟨groupsOf (copyWords s.words s.hole 16 8 8 []), UInt16.ofNat q⟩ := by
  rw [finish, hm, hp, hi, hw, if_neg]
  · rfl
  · rintro (h | ⟨-, h⟩ | ⟨h, -⟩ | ⟨h, -⟩ | ⟨-, h⟩ | ⟨h, -⟩)
    · cases h
    · exact hq h
    · cases h
    · cases h
    · exact h rfl
    · cases h

lemma Reads.parse (h : Reads gs t hole ws w) :
    (v6Run {} t).bind V6.finish = some ⟨groupsOf (gs.map UInt16.toNat), UInt16.ofNat defPort⟩ := by
  have hrun : v6Run {} (t ++ []) = _ := h.run .unset [] nofun
  rw [append_nil] at hrun
  rw [hrun, v6Run_nil, bind_some, finish_unset rfl rfl h.hole_of_lt, h.words_unset,
    read_hole, h.copy none]

lemma Reads.parse_port (h : Reads gs t hole ws w) (hp : Spells 10 q p) (hq : q ≤ 0xffff)
    (hq0 : q ≠ 0) :
    (v6Run {} (0x5b :: t ++ 0x5d :: 0x3a :: p)).bind V6.finish =
      some ⟨groupsOf (gs.map UInt16.toNat), UInt16.ofNat q⟩ := by
  have hopen : v6Run {} (0x5b :: (t ++ 0x5d :: 0x3a :: p)) =
      v6Run (V6.read .opened none [] 0) (t ++ 0x5d :: 0x3a :: p) := v6Run_char rfl (by decide)
  have h8 : (ws ++ [some w] ++ replicate (7 - ws.length) (none : Option Nat)).length = 8 := by
    have := h.len
    simp
    omega
  rw [cons_append, hopen, h.run .opened _ nofun, run_port h.len hp hq, bind_some,
    h.words_port]
  refine (finish_closed rfl rfl rfl ?_ hq0).trans ?_
  · rw [word, getElem?_append_right (by omega), h8]
    rfl
  · rw [read_hole, h.copy (some q)]

end finish

/-- The digits of the first group start with a letter or have none. -/
def firstGroupOk (g : UInt16) : Bool :=
  (groupDigits g).head?.any (10 ≤ ·) || (groupDigits g).all (· < 10)

lemma dropWhile_digits (ht : Spells 10 q t) (l : List UInt8) :
    (t ++ l).dropWhile isDigit = l.dropWhile isDigit := by
  obtain ⟨d, ds, rfl, hds, -⟩ := ht
  rw [dropWhile_append_of_pos]
  intro c hc
  obtain ⟨x, hx, rfl⟩ := List.mem_map.mp hc
  exact (hexAsc_dec x (hds x hx)).1

lemma modeOf_digit (hd : d < 10) (l : List UInt8) :
    modeOf (hexAsc d :: l) =
      match ((hexAsc d :: l).dropWhile isDigit).head? with
      | some c => if c = 0x3a then some .v6 else if c = 0x2e then some .v4 else none
      | none => none := by
  have hhead : ¬ (some (hexAsc d)).any (fun c => c == 0x5b || isAlpha c) = true := by
    rw [any_some, hexAsc_not_alpha d hd]
    nofun
  exact if_neg hhead

lemma modeOf_number (ht : Spells 10 q t) (l : List UInt8) (hc : isDigit c = false) :
    modeOf (t ++ c :: l) = if c = 0x3a then some .v6 else if c = 0x2e then some .v4 else none := by
  have hdrop := dropWhile_digits ht (c :: l)
  obtain ⟨d, ds, rfl, hds, -⟩ := ht
  rw [map_cons, cons_append] at hdrop ⊢
  rw [modeOf_digit (hds d mem_cons_self), hdrop, dropWhile_cons, hc]
  rfl

lemma dropWhile_letter (ds : List Nat) (l : List UInt8) (hds : ∀ x ∈ ds, x < 16)
    (h : ds.all (· < 10) = false) :
    ∃ x r, x < 16 ∧ (ds.map hexAsc ++ l).dropWhile isDigit = hexAsc x :: r := by
  induction ds with
  | nil => cases h
  | cons d ds ih =>
    obtain ⟨hd, hds⟩ := List.forall_mem_cons.mp hds
    by_cases h10 : d < 10
    · rw [all_cons, decide_eq_true h10, Bool.true_and] at h
      obtain ⟨x, r, hx, hr⟩ := ih hds h
      refine ⟨x, r, hx, ?_⟩
      rw [map_cons, cons_append, dropWhile_cons, if_pos (hexAsc_dec d h10).1, hr]
    · refine ⟨d, ds.map hexAsc ++ l, hd, ?_⟩
      rw [map_cons, cons_append, dropWhile_cons,
        if_neg (by rw [(hexAsc_letter d hd (by omega)).1]; nofun)]

lemma modeOf_group (g : UInt16) (l : List UInt8) :
    modeOf (tfwPutIpv6DigitGroup g ++ 0x3a :: l) = if firstGroupOk g then some .v6 else none := by
  obtain ⟨d, ds, hg, hds, -⟩ := groupDigits_spec g
  obtain ⟨hd, -⟩ := List.forall_mem_cons.mp hds
  rw [firstGroupOk, tfwPutIpv6DigitGroup, hg]
  by_cases h10 : 10 ≤ d
  · have hhead : (some (hexAsc d)).any (fun c => c == 0x5b || isAlpha c) = true := by
      rw [any_some, (hexAsc_letter d hd h10).2, Bool.or_true]
    have hok : (d :: ds).head?.any (10 ≤ ·) = true := decide_eq_true h10
    rw [hok, Bool.true_or, if_pos rfl]
    exact if_pos hhead
  · have hno : (d :: ds).head?.any (10 ≤ ·) = false := decide_eq_false h10
    rw [hno, Bool.false_or]
    cases hall : (d :: ds).all (· < 10) with
    | true =>
      have hspell : Spells 10 _ ((d :: ds).map hexAsc) :=
        ⟨d, ds, rfl, fun x hx => of_decide_eq_true (List.all_eq_true.mp hall x hx), rfl⟩
      exact modeOf_number hspell l rfl
    | false =>
      obtain ⟨x, r, hx, hr⟩ := dropWhile_letter (d :: ds) (0x3a :: l) hds hall
      rw [map_cons, cons_append] at hr ⊢
      rw [modeOf_digit (by omega), hr]
      obtain ⟨h1, -, h2⟩ := hexAsc_ne x hx
      change (if hexAsc x = 0x3a then _ else _) = _
      rw [if_neg h1, if_neg h2]
      rfl

variable {c : Nat}

section roundTrip

/-- The text is accepted and gives the address back, and the port if it was asked for. -/
def RoundTrips (addr : TfwAddr) (printPort : Bool) : Prop :=
  ∃ r, tfwAddrPton [tfwAddrFmt addr printPort] = some r ∧ r.groups = addr.groups ∧
    (printPort = true → r.port = addr.port)

/-- The decimal numbers are printed right, and the first group shows the family where
no bracket does. -/
def formatOk (addr : TfwAddr) (printPort : Bool) : Bool :=
  if addr.isV4mapped then
    addr.octets.all decPrints && (!shouldPrintPort printPort addr.port || decPrints addr.port.toNat)
  else if shouldPrintPort printPort addr.port then decPrints addr.port.toNat
  else addr.groups.toList.head?.all firstGroupOk

lemma v6Run_slash (s : V6) (l : List UInt8) (h : 0x2f ∈ l) : v6Run s l = none := by
  refine Option.map_eq_none_iff.mpr ?_
  fun_induction v6Chunk none s l with
  | case1 s => cases h
  | case2 s c data hf => rfl
  | case3 s hf hn => cases hn
  | case4 s hf hn => exact absurd (List.mem_singleton.mp h) (by decide)
  | case5 s hf rest ih =>
    refine ih (mem_of_ne_of_mem (by decide) (mem_of_ne_of_mem (by decide) h))
  | case6 s hf d rest hd ih =>
    cases hs : s.colon with
    | none => rfl
    | some s' => exact ih s' (mem_of_ne_of_mem (by decide) h)
  | case7 s c data hf hc ih =>
    by_cases hslash : c = 0x2f
    · subst hslash
      rfl
    · cases hs : s.char c with
      | none => rfl
      | some s' => exact ih s' (mem_of_ne_of_mem (Ne.symm hslash) h)

lemma tfwAddrPton_slash (h : 0x2f ∈ text) : tfwAddrPton [text] = none := by
  have hne : ∀ c ∈ [text], c ≠ [] := by
    intro c hc
    rw [List.mem_singleton.mp hc]
    exact ne_nil_of_mem h
  have hflat : [text].flatten = text := by simp
  rw [tfwAddrPton, tfwAddrPtonV4, tfwAddrPtonV6, feed_scan, v6Chunks_eq false {} [text] hne, hflat,
    V4.scan_slash {} text h, if_neg (by nofun), v6Run_slash {} text h]
  split
  · rfl
  · rfl
  · rfl

lemma tfwAddrPton_v6 (hne : text ≠ []) (hmode : modeOf text = some .v6) :
    tfwAddrPton [text] = (v6Run {} text).bind V6.finish := by
  have hne : ∀ c ∈ [text], c ≠ [] := List.forall_mem_singleton.mpr hne
  have hflat : [text].flatten = text := by simp
  rw [tfwAddrPton, hflat, hmode]
  rw [tfwAddrPtonV6, v6Chunks_eq false {} [text] hne, hflat]
  rfl

lemma tfwAddrPton_v4 {s : V4} (hmode : modeOf text = some .v4)
    (hs : scan V4.step {} text = .inl s) : tfwAddrPton [text] = s.finish := by
  have hflat : [text].flatten = text := by simp
  rw [tfwAddrPton, hflat, hmode]
  rw [tfwAddrPtonV4, feed_scan, hflat, hs]

lemma isV4mapped_groups (h : addr.isV4mapped = true) :
    ∃ g g', addr.groups.toList = [0, 0, 0, 0, 0, 0xffff, g, g'] := by
  have htake : addr.groups.toList.take 6 = [0, 0, 0, 0, 0, 0xffff] := eq_of_beq h
  have hlen : (addr.groups.toList.drop 6).length = 2 := by simp
  obtain ⟨g, g', hdrop⟩ := List.length_eq_two.mp hlen
  refine ⟨g, g', ?_⟩
  rw [← take_append_drop 6 addr.groups.toList, htake, hdrop]
  rfl

lemma intercalate_quad (a b d : Nat) (l : List UInt8) :
    [0x2e].intercalate ([a, b, c, d].map tfwPutDec) ++ l =
      tfwPutDec a ++ 0x2e :: (tfwPutDec b ++ 0x2e ::
        (tfwPutDec c ++ 0x2e :: (tfwPutDec d ++ l))) := by
  simp [intercalate]

lemma scan_quad (hlt : ∀ x ∈ [a, b, c, d], x < 256) (h : [a, b, c, d].all decPrints = true)
    (l : List UInt8) :
    scan V4.step {} ([0x2e].intercalate ([a, b, c, d].map tfwPutDec) ++ l) =
      scan V4.step ⟨some d, 3, false, [a, b, c]⟩ l := by
  have hs {x : Nat} (hx : x ∈ [a, b, c, d]) : Spells 10 x (tfwPutDec x) := by
    have := hlt x hx
    exact tfwPutDec_spells (by omega) (List.all_eq_true.mp h x hx)
  have hle {x : Nat} (hx : x ∈ [a, b, c, d]) : x ≤ if false then 0xffff else 255 :=
    Nat.le_of_lt_succ (hlt x hx)
  have ha : a ∈ [a, b, c, d] := by simp
  have hb : b ∈ [a, b, c, d] := by simp
  have hc : c ∈ [a, b, c, d] := by simp
  have hd : d ∈ [a, b, c, d] := by simp
  rw [intercalate_quad, V4.scan_number _ (hs ha) (hle ha), V4.scan_dot (by decide),
    V4.scan_number _ (hs hb) (hle hb), V4.scan_dot (by decide),
    V4.scan_number _ (hs hc) (hle hc), V4.scan_dot (by decide),
    V4.scan_number _ (hs hd) (hle hd)]
  rfl

lemma scan_quad_port (hlt : ∀ x ∈ [a, b, c, d], x < 256) (h : [a, b, c, d].all decPrints = true)
    (hq : q < 2 ^ 16) (hdec : decPrints q = true) :
    scan V4.step {} ([0x2e].intercalate ([a, b, c, d].map tfwPutDec) ++ 0x3a :: tfwPutDec q) =
      .inl ⟨some q, 4, true, [a, b, c, d]⟩ := by
  have hle : q ≤ if true then 0xffff else 255 := Nat.le_of_lt_succ hq
  rw [scan_quad hlt h, V4.scan_colon, ← append_nil (tfwPutDec q),
    V4.scan_number [] (tfwPutDec_spells hq hdec) hle]
  rfl

lemma octets_eq (h : addr.groups.toList = [0, 0, 0, 0, 0, 0xffff, g, g']) :
    addr.octets = [g.toNat / 256, g.toNat % 256, g'.toNat / 256, g'.toNat % 256] := by
  rw [TfwAddr.octets, h]
  rfl

lemma v4Mapped_octets (h : addr.groups.toList = [0, 0, 0, 0, 0, 0xffff, g, g']) :
    v4Mapped [g.toNat / 256, g.toNat % 256, g'.toNat / 256, g'.toNat % 256] = addr.groups := by
  have hmod (x : Nat) : x / 256 * 256 + x % 256 = x := by omega
  have hgs := groupsOf_toList addr.groups
  rw [h] at hgs
  rw [v4Mapped]
  simp only [getD_cons_zero, getD_cons_succ, hmod]
  exact hgs

lemma roundTrips_of_parse (h0 : addr.port ≠ 0)
    (h : tfwAddrPton [tfwAddrFmt addr printPort] = some ⟨addr.groups,
      if shouldPrintPort printPort addr.port then addr.port else UInt16.ofNat defPort⟩) :
    RoundTrips addr printPort := by
  refine ⟨_, h, rfl, fun hp => ?_⟩
  split
  next => rfl
  next hs =>
    rw [hp, shouldPrintPort] at hs
    simp [h0] at hs
    exact hs.symm

lemma not_roundTrips_of_slash (h : 0x2f ∈ tfwAddrFmt addr printPort) :
    ¬ RoundTrips addr printPort := by
  rintro ⟨r, hr, -⟩
  rw [tfwAddrPton_slash h] at hr
  cases hr

lemma slash_mem_quad (h : [a, b, c, d].all decPrints = false) (l : List UInt8) :
    0x2f ∈ [0x2e].intercalate ([a, b, c, d].map tfwPutDec) ++ l := by
  obtain ⟨x, hx, hbad⟩ := List.all_eq_false.mp h
  have hslash := tfwPutDec_slash (Bool.eq_false_iff.mpr hbad)
  rw [intercalate_quad]
  simp only [mem_cons, not_mem_nil, or_false] at hx
  rcases hx with rfl | rfl | rfl | rfl <;> simp [hslash]

lemma octets_lt (g g' : UInt16) :
    ∀ x ∈ [g.toNat / 256, g.toNat % 256, g'.toNat / 256, g'.toNat % 256], x < 256 := by
  have hg := g.toNat_lt
  have hg' := g'.toNat_lt
  simp only [forall_mem_cons, not_mem_nil, false_implies, implies_true, and_true]
  omega

lemma roundTrips_v4 (h0 : addr.port ≠ 0) (hv : addr.isV4mapped = true) :
    RoundTrips addr printPort ↔ formatOk addr printPort = true := by
  obtain ⟨g, g', hgs⟩ := isV4mapped_groups hv
  have hport := addr.port.toNat_lt
  have htext : tfwAddrFmt addr printPort =
      [0x2e].intercalate (addr.octets.map tfwPutDec) ++
        if shouldPrintPort printPort addr.port then 0x3a :: tfwPutDec addr.port.toNat else [] :=
    if_pos hv
  rw [octets_eq hgs] at htext
  rw [formatOk, if_pos hv, octets_eq hgs]
  cases hoct : [g.toNat / 256, g.toNat % 256, g'.toNat / 256, g'.toNat % 256].all decPrints with
  | false =>
    rw [Bool.false_and]
    refine iff_of_false (not_roundTrips_of_slash ?_) nofun
    rw [htext]
    exact slash_mem_quad hoct _
  | true =>
    have hscan := scan_quad (octets_lt g g') hoct
    have hmode (l : List UInt8) : modeOf ([0x2e].intercalate
        ([g.toNat / 256, g.toNat % 256, g'.toNat / 256, g'.toNat % 256].map tfwPutDec) ++ l) =
          some .v4 := by
      have hlt := octets_lt g g' (g.toNat / 256) mem_cons_self
      have hs := tfwPutDec_spells (by omega) (List.all_eq_true.mp hoct _ mem_cons_self)
      rw [intercalate_quad]
      exact modeOf_number hs _ rfl
    rw [Bool.true_and]
    cases hprint : shouldPrintPort printPort addr.port with
    | false =>
      refine iff_of_true (roundTrips_of_parse h0 ?_) rfl
      rw [htext, hprint, tfwAddrPton_v4 (hmode _) (hscan _), ← v4Mapped_octets hgs]
      rfl
    | true =>
      rw [Bool.not_true, Bool.false_or]
      cases hdec : decPrints addr.port.toNat with
      | false =>
        refine iff_of_false (not_roundTrips_of_slash ?_) nofun
        rw [htext, hprint]
        have hslash := tfwPutDec_slash hdec
        simp [hslash]
      | true =>
        refine iff_of_true (roundTrips_of_parse h0 ?_) rfl
        have hscan := scan_quad_port (octets_lt g g') hoct hport hdec
        rw [htext, hprint, ← v4Mapped_octets hgs]
        refine (tfwAddrPton_v4 (hmode _) hscan).trans ?_
        exact congrArg (fun p => some (TfwAddr.mk _ p)) UInt16.ofNat_toNat

lemma joinGroups_front (g : UInt16) (gs : List UInt16) (l : List UInt8) :
    ∃ r, joinGroups (g :: gs) ++ 0x3a :: l = tfwPutIpv6DigitGroup g ++ 0x3a :: r := by
  cases gs with
  | nil => exact ⟨l, rfl⟩
  | cons g' gs => exact ⟨joinGroups (g' :: gs) ++ 0x3a :: l, by simp [joinGroups]⟩

lemma modeOf_fmtGroups (hlen : gs.length = 8) :
    modeOf (fmtGroups [] false gs) = if gs.head?.all firstGroupOk then some .v6 else none := by
  obtain ⟨gs, g, rfl⟩ : ∃ front last, gs = front ++ [last] :=
    eq_nil_or_concat' gs |>.resolve_left (by rintro rfl; cases hlen)
  rcases groups_cases gs with hall | ⟨pre, k, post, rfl, hpre, hpost⟩
  · rw [fmtGroups_plain gs g (.inr hall) []]
    cases gs with
    | nil => cases hlen
    | cons x gs =>
      rw [nil_append, cons_append, joinGroups_cons x (by simp)]
      exact modeOf_group x _
  · rw [append_assoc, append_assoc, fmtGroups_split pre k post g hpre hpost (by simp)]
    cases pre with
    | nil => rfl
    | cons x pre =>
      obtain ⟨r, hr⟩ := joinGroups_front x pre (0x3a :: joinGroups (post ++ [g]))
      rw [nil_append, hr]
      exact modeOf_group x r

lemma roundTrips_v6 (h0 : addr.port ≠ 0) (hv : addr.isV4mapped = false) :
    RoundTrips addr printPort ↔ formatOk addr printPort = true := by
  have hport := addr.port.toNat_lt
  have hlen : addr.groups.toList.length = 8 := by simp
  have hnot : ¬ addr.isV4mapped = true := Bool.eq_false_iff.mp hv
  have hport0 : addr.port.toNat ≠ 0 := fun e => h0 (UInt16.toNat_inj.mp e)
  rw [formatOk, if_neg hnot]
  cases hprint : shouldPrintPort printPort addr.port with
  | true =>
    rw [if_pos rfl]
    have htext : tfwAddrFmt addr printPort =
        fmtGroups [0x5b] false addr.groups.toList ++ 0x5d :: 0x3a :: tfwPutDec addr.port.toNat := by
      rw [tfwAddrFmt, if_neg hnot, if_pos hprint]
    obtain ⟨t, hole, ws, w, ht, hreads⟩ := exists_reads addr.groups.toList hlen
      (show [(0x5b : UInt8)].getLast? ≠ some 0x3a by decide)
    rw [ht] at htext
    cases hdec : decPrints addr.port.toNat with
    | false =>
      refine iff_of_false (not_roundTrips_of_slash ?_) nofun
      have hslash := tfwPutDec_slash hdec
      rw [htext]
      simp [hslash]
    | true =>
      refine iff_of_true (roundTrips_of_parse h0 ?_) rfl
      rw [htext, tfwAddrPton_v6 (by simp) rfl, hprint]
      refine (hreads.parse_port (tfwPutDec_spells hport hdec) (by omega) hport0).trans ?_
      rw [groupsOf_toList, UInt16.ofNat_toNat]
      rfl
  | false =>
    have htext : tfwAddrFmt addr printPort = fmtGroups [] false addr.groups.toList := by
      rw [tfwAddrFmt, if_neg hnot, hprint]
      rfl
    have hmode := modeOf_fmtGroups hlen
    rw [if_neg (by nofun)]
    cases hfirst : addr.groups.toList.head?.all firstGroupOk with
    | false =>
      rw [hfirst] at hmode
      refine iff_of_false ?_ nofun
      rintro ⟨r, hr, -⟩
      have hflat : [fmtGroups [] false addr.groups.toList].flatten =
        fmtGroups [] false addr.groups.toList := by simp
      rw [htext, tfwAddrPton, hflat, hmode] at hr
      cases hr
    | true =>
      rw [hfirst] at hmode
      obtain ⟨t, hole, ws, w, ht, hreads⟩ := exists_reads addr.groups.toList hlen
        (show ([] : List UInt8).getLast? ≠ some 0x3a by decide)
      refine iff_of_true (roundTrips_of_parse h0 ?_) rfl
      have hne : fmtGroups [] false addr.groups.toList ≠ [] := by
        intro e
        rw [e] at hmode
        cases hmode
      rw [htext, tfwAddrPton_v6 hne hmode, ht, nil_append, hreads.parse, groupsOf_toList,
        hprint]
      rfl

/-- An address is read back from its text just when the decimal numbers have none of
the four pairs of digits that are split wrongly, and the first group of an address
without brackets is not one that starts with a digit and has a letter. -/
theorem tfwAddrFmt_roundTrips_iff (addr : TfwAddr) (printPort : Bool) (h0 : addr.port ≠ 0) :
    RoundTrips addr printPort ↔ formatOk addr printPort = true := by
  cases hv : addr.isV4mapped with
  | true => exact roundTrips_v4 h0 hv
  | false => exact roundTrips_v6 h0 hv

theorem roundTrips_192_168_0_1 :
    RoundTrips ⟨groupsOf [0, 0, 0, 0, 0, 0xffff, 0xc0a8, 1], 8080⟩ true :=
  (tfwAddrFmt_roundTrips_iff _ _ (by decide)).mpr (by decide)

/-- 10.0.0.69 is written as `10.0.0.7/`, and 2f1c:22::1 without a port is taken for
neither family. -/
theorem addr_text_not_read :
    tfwAddrFmt ⟨groupsOf [0, 0, 0, 0, 0, 0xffff, 0x0a00, 0x0045], 80⟩ false =
        [0x31, 0x30, 0x2e, 0x30, 0x2e, 0x30, 0x2e, 0x37, 0x2f] ∧
      ¬ RoundTrips ⟨groupsOf [0, 0, 0, 0, 0, 0xffff, 0x0a00, 0x0045], 80⟩ false ∧
      ¬ RoundTrips ⟨groupsOf [0x2f1c, 0x22, 0, 0, 0, 0, 0, 1], 80⟩ false := by
  refine ⟨by decide, ?_, ?_⟩
  · rintro ⟨r, hr, -⟩
    rw [show tfwAddrPton [tfwAddrFmt ⟨groupsOf [0, 0, 0, 0, 0, 0xffff, 0x0a00, 0x0045], 80⟩ false] =
      none by decide] at hr
    cases hr
  · rintro ⟨r, hr, -⟩
    rw [show tfwAddrPton [tfwAddrFmt ⟨groupsOf [0x2f1c, 0x22, 0, 0, 0, 0, 0, 1], 80⟩ false] =
      none by decide] at hr
    cases hr

end roundTrip

end Tempesta.Addr
