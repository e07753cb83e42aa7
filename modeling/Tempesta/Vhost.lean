import Tempesta.Http.Stricmp

/-!
Virtual hosts by name. The hosts of a configuration are kept in a hash table; a host is
looked up in the bucket of the wanted name and compared without regard to case, a running
configuration by the vector code. The key is a CRC over the bytes of the name as they are,
computed chunk by chunk.
-/

namespace Tempesta.Vhost

open List Http

/-- One bit of the `crc32` instruction -/
def crcBit (crc : UInt32) : UInt32 :=
  if crc &&& 1 = 1 then (crc >>> 1) ^^^ 0x82f63b78 else crc >>> 1

def crcb (crc : UInt32) (b : UInt8) : UInt32 :=
  (List.range 8).foldl (fun c _ => crcBit c) (crc ^^^ b.toUInt32)

/-- `CRCB` for byte after byte; `CRCQ` is this for the eight bytes of a word in memory. -/
def crcs (crc : UInt32) (bytes : List UInt8) : UInt32 := bytes.foldl crcb crc

/-- `__hash_calc` with `n` pairs of words left -/
def hashCalcPairs : Nat → UInt32 × UInt32 → List UInt8 → UInt32 × UInt32
  | 0, (crc0, crc1), data =>
    if 8 ≤ data.length then (crcs crc0 (data.take 8), crcs crc1 (data.drop 8))
    else (crcs crc0 data, crc1)
  | n + 1, (crc0, crc1), data =>
    hashCalcPairs n (crcs crc0 (data.take 8), crcs crc1 ((data.drop 8).take 8)) (data.drop 16)

/-- `crc0`, `crc1` and `tail` of `tfw_hash_str_len` -/
structure HashSt where
  crc0 : UInt32
  crc1 : UInt32
  tail : Nat
  deriving DecidableEq, Repr

/-- `__hash_calc` of what is left of a chunk -/
def HashSt.calc (s : HashSt) (data : List UInt8) : HashSt :=
  let crc := hashCalcPairs (data.length / 16) (s.crc0, s.crc1) data
  ⟨crc.1, crc.2, data.length % 16⟩

/-- The two loops that complete the words begun in the chunks before -/
def HashSt.fillTail : HashSt → List UInt8 → HashSt × List UInt8
  | s, [] => (s, [])
  | s, b :: bs =>
    if s.tail < 8 then fillTail { s with crc0 := crcb s.crc0 b, tail := s.tail + 1 } bs
    else if s.tail < 16 then fillTail { s with crc1 := crcb s.crc1 b, tail := s.tail + 1 } bs
    else (s, b :: bs)

def HashSt.chunk (s : HashSt) (data : List UInt8) : HashSt :=
  if s.tail = 0 then s.calc data
  else if (s.fillTail data).1.tail < 16 then (s.fillTail data).1
  else (s.fillTail data).1.calc (s.fillTail data).2

/-- `tfw_hash_str`; a plain string is one chunk. -/
def tfwHashStr (name : List (List UInt8)) : UInt64 :=
  let s := name.foldl HashSt.chunk ⟨0, 0, 0⟩
  (s.crc1.toUInt64 <<< 32) ||| s.crc0.toUInt64

/-- `hash_min` for a table of `2 ^ TFW_VH_HBITS` buckets -/
def hashMin (key : UInt64) : UInt64 := (key * 0x61c8864680b583eb) >>> 54

/-- `vh_hash` by buckets; a host is known by its name. -/
abbrev VhHash := UInt64 → List (List UInt8)

def hashAdd (t : VhHash) (key : UInt64) (name : List UInt8) : VhHash := fun b =>
  if b = hashMin key then name :: t b else t b

/-- `tolower` of the kernel, which knows Latin-1 -/
def kernelLower (c : UInt8) : UInt8 :=
  if (0x41 ≤ c ∧ c ≤ 0x5a) ∨ (0xc0 ≤ c ∧ c ≤ 0xde ∧ c ≠ 0xd7) then c + 0x20 else c

/-- `strcasecmp` tells no difference. -/
def strcaseEq (a b : List UInt8) : Bool := a.map kernelLower == b.map kernelLower

/-- `TFW_VH_DFT_NAME` -/
def dftName : List UInt8 := ofAscii "default"

/-- The configuration while it is read: the table, the names in it, the newest one first, and
`expl_dflt` -/
structure Reconfig where
  vhHash : VhHash
  names : List (List UInt8)
  explDflt : Bool

/-- `tfw_vhost_add` -/
def Reconfig.vhostAdd (c : Reconfig) (name : List UInt8) : Reconfig :=
  { c with vhHash := hashAdd c.vhHash (tfwHashStr [name]) name, names := name :: c.names }

/-- `tfw_cfgop_vhost_begin`: a name that is there already is an error. -/
def Reconfig.vhostBegin (c : Reconfig) (name : List UInt8) : Option Reconfig :=
  if c.names.any (strcaseEq · name) then none
  else if strcaseEq name dftName then some ({ c with explDflt := true }.vhostAdd dftName)
  else some (c.vhostAdd name)

/-- `tfw_vhost_cfgend` -/
def Reconfig.cfgend (c : Reconfig) : Reconfig :=
  if c.explDflt then c else c.vhostAdd dftName

def configure (names : List (List UInt8)) : Option Reconfig :=
  (names.foldlM Reconfig.vhostBegin ⟨fun _ => [], [], false⟩).map Reconfig.cfgend

def nameKey (name : List UInt8) : UInt64 := hashMin (tfwHashStr [name])

/-- `tfw_vhost_lookup` of a name in chunks -/
def vhostLookup (t : VhHash) (name : List (List UInt8)) : Option (List UInt8) :=
  if name.flatten = [] then none
  else (t (hashMin (tfwHashStr name))).find? fun v => stricmpEq [v] name

/-- `tfw_vhost_lookup_reconfig`, in the configuration that is being read -/
def vhostLookupReconfig (t : VhHash) (name : List UInt8) : Option (List UInt8) :=
  (t (nameKey name)).find? (strcaseEq · name)

/-- The host that `tfw_tls_sni` takes: none, the default one or one by name -/
inductive SniVhost where
  | reject
  | dflt
  | vhost (name : List UInt8)
  deriving DecidableEq, Repr

/-- The choice of the host in `tfw_tls_sni` -/
def tlsSni (t : VhHash) (allowAnySni : Bool) (data : List UInt8) : SniVhost :=
  if data = [] then .dflt
  else
    match vhostLookup t [data] with
    | some v => if v = dftName then .reject else .vhost v
    | none => if allowAnySni then .dflt else .reject

/-- One byte of a name, at its place in the pairs of words -/
def HashSt.put (s : HashSt) (b : UInt8) : HashSt :=
  if s.tail < 8 then { s with crc0 := crcb s.crc0 b, tail := s.tail + 1 }
  else { s with crc1 := crcb s.crc1 b, tail := (s.tail + 1) % 16 }

lemma foldl_put_low (crc0 crc1 : UInt32) (t : Nat) (l : List UInt8) (h : t + l.length ≤ 8) :
    l.foldl HashSt.put ⟨crc0, crc1, t⟩ = ⟨crcs crc0 l, crc1, t + l.length⟩ := by
  induction l generalizing crc0 t with
  | nil => rfl
  | cons b l ih =>
    rw [length_cons] at h
    have hput : HashSt.put ⟨crc0, crc1, t⟩ b = ⟨crcb crc0 b, crc1, t + 1⟩ :=
      if_pos (show t < 8 by omega)
    rw [foldl_cons, hput, ih _ _ (by omega), length_cons, Nat.add_assoc, Nat.add_comm 1]
    rfl

lemma foldl_put_high (crc0 crc1 : UInt32) (t : Nat) (l : List UInt8) (ht : 8 ≤ t)
    (h : t + l.length < 16) :
    l.foldl HashSt.put ⟨crc0, crc1, t⟩ = ⟨crc0, crcs crc1 l, t + l.length⟩ := by
  induction l generalizing crc1 t with
  | nil => rfl
  | cons b l ih =>
    rw [length_cons] at h
    have hput : HashSt.put ⟨crc0, crc1, t⟩ b = ⟨crc0, crcb crc1 b, t + 1⟩ := by
      have hmod : (t + 1) % 16 = t + 1 := Nat.mod_eq_of_lt (by omega)
      rw [← hmod]
      exact if_neg (show ¬ t < 8 by omega)
    rw [foldl_cons, hput, ih _ _ (by omega) (by omega), length_cons, Nat.add_assoc,
      Nat.add_comm 1]
    rfl

lemma foldl_put_word (crc0 crc1 : UInt32) (l : List UInt8) (h : l.length = 8) :
    l.foldl HashSt.put ⟨crc0, crc1, 8⟩ = ⟨crc0, crcs crc1 l, 0⟩ := by
  obtain ⟨init, b, rfl⟩ := (eq_nil_or_concat' l).resolve_left (by rintro rfl; cases h)
  rw [length_append, length_singleton] at h
  rw [foldl_append, foldl_put_high crc0 crc1 8 init (by omega) (by omega), crcs, crcs,
    foldl_append]
  have hlen : 8 + init.length = 15 := by omega
  have hput : ∀ c, HashSt.put ⟨crc0, c, 15⟩ b = ⟨crc0, crcb c b, 0⟩ :=
    fun c => by simp [HashSt.put]
  rw [hlen, foldl_cons, foldl_nil, hput]
  rfl

lemma HashSt.calc_eq (crc0 crc1 : UInt32) (n : Nat) (data : List UInt8)
    (h : data.length / 16 = n) :
    (⟨(hashCalcPairs n (crc0, crc1) data).1, (hashCalcPairs n (crc0, crc1) data).2,
      data.length % 16⟩ : HashSt) = data.foldl HashSt.put ⟨crc0, crc1, 0⟩ := by
  induction n generalizing crc0 crc1 data with
  | zero =>
    have hlt : data.length < 16 := by omega
    rw [Nat.mod_eq_of_lt hlt, hashCalcPairs]
    by_cases h8 : 8 ≤ data.length
    · rw [if_pos h8]
      have htake : (data.take 8).length = 8 := by rw [length_take]; omega
      have hdrop : (data.drop 8).length = data.length - 8 := length_drop
      conv_rhs => rw [← take_append_drop 8 data]
      rw [foldl_append, foldl_put_low crc0 crc1 0 (data.take 8) (by omega), htake,
        foldl_put_high _ _ (0 + 8) (data.drop 8) (by omega) (by omega), hdrop]
      have hsum : 0 + 8 + (data.length - 8) = data.length := by omega
      rw [hsum]
    · rw [if_neg h8, foldl_put_low crc0 crc1 0 data (by omega), Nat.zero_add]
  | succ n ih =>
    have hrest : (data.drop 16).length = data.length - 16 := length_drop
    have hmod : data.length % 16 = (data.drop 16).length % 16 := by omega
    have htake : (data.take 8).length = 8 := by rw [length_take]; omega
    have hmid : ((data.drop 8).take 8).length = 8 := by
      rw [length_take, length_drop]
      omega
    have hsplit : data = data.take 8 ++ ((data.drop 8).take 8 ++ data.drop 16) := by
      have h16 : data.drop 16 = (data.drop 8).drop 8 := by rw [drop_drop]
      rw [h16, take_append_drop, take_append_drop]
    rw [hashCalcPairs, hmod, ih _ _ _ (by omega)]
    conv_rhs => rw [hsplit]
    rw [foldl_append, foldl_append, foldl_put_low crc0 crc1 0 (data.take 8) (by omega),
      htake, foldl_put_word _ _ _ hmid]

lemma HashSt.fillTail_eq (s : HashSt) (data : List UInt8) (hs : s.tail ≠ 0) (hlt : s.tail < 16) :
    (if (s.fillTail data).1.tail < 16 then (s.fillTail data).1
      else (s.fillTail data).1.calc (s.fillTail data).2) = data.foldl HashSt.put s := by
  induction data generalizing s with
  | nil =>
    rw [HashSt.fillTail]
    exact if_pos hlt
  | cons b bs ih =>
    rw [foldl_cons]
    by_cases h8 : s.tail < 8
    · have hstep : s.fillTail (b :: bs) =
          fillTail { s with crc0 := crcb s.crc0 b, tail := s.tail + 1 } bs := by
        rw [HashSt.fillTail, if_pos h8]
      have hput : s.put b = { s with crc0 := crcb s.crc0 b, tail := s.tail + 1 } := if_pos h8
      rw [hstep, hput]
      exact ih _ (Nat.succ_ne_zero _) (show s.tail + 1 < 16 by omega)
    · have hstep : s.fillTail (b :: bs) =
          fillTail { s with crc1 := crcb s.crc1 b, tail := s.tail + 1 } bs := by
        rw [HashSt.fillTail, if_neg h8, if_pos hlt]
      have hput : s.put b = { s with crc1 := crcb s.crc1 b, tail := (s.tail + 1) % 16 } :=
        if_neg h8
      rw [hstep, hput]
      rcases Nat.lt_or_ge (s.tail + 1) 16 with hnext | hfull
      · rw [Nat.mod_eq_of_lt hnext]
        exact ih _ (Nat.succ_ne_zero _) hnext
      · have htail : s.tail + 1 = 16 := by omega
        have hstop : fillTail { s with crc1 := crcb s.crc1 b, tail := s.tail + 1 } bs =
            ({ s with crc1 := crcb s.crc1 b, tail := s.tail + 1 }, bs) := by
          cases bs with
          | nil => rfl
          | cons c bs =>
            rw [HashSt.fillTail, if_neg (show ¬ s.tail + 1 < 8 by omega),
              if_neg (show ¬ s.tail + 1 < 16 by omega)]
        rw [hstop, if_neg (show ¬ s.tail + 1 < 16 by omega), htail]
        exact HashSt.calc_eq s.crc0 (crcb s.crc1 b) _ bs rfl

lemma HashSt.put_tail_lt (s : HashSt) (b : UInt8) : (s.put b).tail < 16 := by
  rw [HashSt.put]
  split
  next h => exact show s.tail + 1 < 16 by omega
  next => exact Nat.mod_lt _ (by omega)

lemma HashSt.foldl_put_tail_lt (data : List UInt8) {s : HashSt} (hs : s.tail < 16) :
    (data.foldl HashSt.put s).tail < 16 := by
  induction data generalizing s with
  | nil => exact hs
  | cons b data ih => exact ih (s.put_tail_lt b)

lemma HashSt.chunk_eq (s : HashSt) (data : List UInt8) (hs : s.tail < 16) :
    s.chunk data = data.foldl HashSt.put s := by
  rw [HashSt.chunk]
  by_cases h : s.tail = 0
  · rw [if_pos h]
    obtain ⟨crc0, crc1, t⟩ := s
    cases h
    exact HashSt.calc_eq crc0 crc1 _ data rfl
  · rw [if_neg h]
    exact HashSt.fillTail_eq s data h hs

lemma foldl_chunk_eq (name : List (List UInt8)) (s : HashSt) (hs : s.tail < 16) :
    name.foldl HashSt.chunk s = name.flatten.foldl HashSt.put s := by
  induction name generalizing s with
  | nil => rfl
  | cons data name ih =>
    rw [foldl_cons, flatten_cons, foldl_append, s.chunk_eq data hs,
      ih _ (HashSt.foldl_put_tail_lt data hs)]

lemma tfwHashStr_flatten (name : List (List UInt8)) :
    tfwHashStr name = tfwHashStr [name.flatten] := by
  have hone := foldl_chunk_eq [name.flatten] ⟨0, 0, 0⟩ (by decide)
  rw [flatten_cons, flatten_nil, append_nil] at hone
  rw [tfwHashStr, tfwHashStr, hone, foldl_chunk_eq name ⟨0, 0, 0⟩ (by decide)]

theorem kernelLower_tfwLc (c : UInt8) : kernelLower (tfwLc c) = kernelLower c := by
  have h : ∀ i : Fin 256, kernelLower (tfwLc (UInt8.ofNat i.val)) =
    kernelLower (UInt8.ofNat i.val) := by
    decide +kernel
  have hc := h ⟨c.toNat, c.toNat_lt⟩
  rwa [UInt8.ofNat_toNat] at hc

/-- Names that differ only in ASCII case do not differ for `strcasecmp` either. -/
theorem strcaseEq_of_caseEq {a b : List UInt8} (h : caseEq a b = true) :
    strcaseEq a b = true := by
  have hlower : ∀ l : List UInt8, l.map kernelLower = (l.map tfwLc).map kernelLower := by
    intro l
    rw [map_map]
    exact map_congr_left fun c _ => (kernelLower_tfwLc c).symm
  rw [caseEq_iff] at h
  rw [strcaseEq, beq_iff_eq, hlower a, hlower b, h]

/-- The buckets hold the names by their keys, and no two names are equal but for case. -/
structure Reconfig.Ok (c : Reconfig) : Prop where
  bucket : ∀ b, c.vhHash b = c.names.filter fun v => nameKey v = b
  distinct : (c.names.map fun v => v.map kernelLower).Nodup

/-- The name of the default host is taken only by an explicit one. -/
def Reconfig.DfltFree (c : Reconfig) : Prop :=
  c.explDflt = false → ∀ v ∈ c.names, strcaseEq v dftName = false

variable {c : Reconfig} {name : List UInt8}

lemma Reconfig.Ok.vhostAdd (h : c.Ok) (hnew : ∀ v ∈ c.names, strcaseEq v name = false) :
    (c.vhostAdd name).Ok where
  bucket := by
    intro b
    change (if b = nameKey name then name :: c.vhHash b else c.vhHash b) =
      (name :: c.names).filter fun v => nameKey v = b
    rw [filter_cons, h.bucket b]
    by_cases hb : b = nameKey name
    · rw [if_pos hb, if_pos (by simp [hb])]
    · rw [if_neg hb, if_neg (by simpa using Ne.symm hb)]
  distinct := by
    refine nodup_cons.mpr ⟨fun hmem => ?_, h.distinct⟩
    obtain ⟨v, hv, heq⟩ := mem_map.mp hmem
    have hne := hnew v hv
    rw [strcaseEq, beq_eq_false_iff_ne] at hne
    exact hne heq

lemma Reconfig.Ok.vhostBegin {c' : Reconfig} (h : c.Ok) (hfree : c.DfltFree)
    (hb : c.vhostBegin name = some c') : c'.Ok ∧ c'.DfltFree := by
  rw [Reconfig.vhostBegin] at hb
  split at hb
  next => cases hb
  next hnew =>
    have hall : ∀ v ∈ c.names, strcaseEq v name = false := by
      intro v hv
      rw [← Bool.not_eq_true]
      exact fun he => hnew (any_eq_true.mpr ⟨v, hv, he⟩)
    split at hb
    next hdflt =>
      cases hb
      have hok : ({ c with explDflt := true } : Reconfig).Ok := ⟨h.bucket, h.distinct⟩
      refine ⟨hok.vhostAdd fun v hv => ?_, nofun⟩
      have hne := hall v hv
      rw [strcaseEq, beq_iff_eq] at hdflt
      rw [strcaseEq, hdflt] at hne
      exact hne
    next hdflt =>
      cases hb
      refine ⟨h.vhostAdd hall, fun hexpl => ?_⟩
      exact forall_mem_cons.mpr ⟨by simpa using hdflt, hfree hexpl⟩

lemma configure_ok {names : List (List UInt8)} (h : configure names = some c) :
    c.Ok := by
  have hrun : ∀ (names : List (List UInt8)) (c₀ c' : Reconfig), c₀.Ok → c₀.DfltFree →
      names.foldlM Reconfig.vhostBegin c₀ = some c' → c'.Ok ∧ c'.DfltFree := by
    intro names
    induction names with
    | nil =>
      intro c₀ c' h₀ hfree hf
      cases hf
      exact ⟨h₀, hfree⟩
    | cons name names ih =>
      intro c₀ c' h₀ hfree hf
      rw [foldlM_cons] at hf
      obtain ⟨c₁, h₁, hf⟩ := Option.bind_eq_some_iff.mp hf
      obtain ⟨hok₁, hfree₁⟩ := h₀.vhostBegin hfree h₁
      exact ih c₁ c' hok₁ hfree₁ hf
  rw [configure, Option.map_eq_some_iff] at h
  obtain ⟨c', hfold, rfl⟩ := h
  have hinit : (⟨fun _ => [], [], false⟩ : Reconfig).Ok := ⟨fun _ => rfl, nodup_nil⟩
  obtain ⟨hok, hfree⟩ := hrun names _ c' hinit (fun _ => by simp) hfold
  rw [Reconfig.cfgend]
  split
  next => exact hok
  next hexpl => exact hok.vhostAdd (hfree (by simpa using hexpl))

/-- The lookups take every host whose name differs from the wanted one only in case, and
that of the running configuration no other; a TLS handshake takes it too, unless it is the
default host. -/
def Finds (c : Reconfig) (name : List (List UInt8)) : Prop :=
  (∀ v ∈ c.names, caseEq v name.flatten = true → vhostLookup c.vhHash name = some v ∧
    vhostLookupReconfig c.vhHash name.flatten = some v ∧
    (v ≠ dftName → ∀ allowAnySni data, name = [data] →
      tlsSni c.vhHash allowAnySni data = .vhost v)) ∧
  ∀ v, vhostLookup c.vhHash name = some v → v ∈ c.names ∧ caseEq v name.flatten = true

/-- The hosts that were added behind the one with the wanted name; all of them if there is
none -/
def ahead (c : Reconfig) (name : List UInt8) : List (List UInt8) :=
  c.names.takeWhile fun v => !caseEq v name

lemma Reconfig.Ok.eq_of_strcaseEq (h : c.Ok) {v v' : List UInt8} (hv : v ∈ c.names)
    (hv' : v' ∈ c.names) (hm : strcaseEq v name = true) (hm' : strcaseEq v' name = true) :
    v = v' := by
  rw [strcaseEq, beq_iff_eq] at hm hm'
  exact inj_on_of_nodup_map h.distinct hv hv' (hm.trans hm'.symm)

section Lookup

variable {name : List (List UInt8)} {v : List UInt8}

lemma Reconfig.Ok.lookup_eq (h : c.Ok) (hnil : name.flatten ≠ []) :
    vhostLookup c.vhHash name =
      ((c.names.filter fun v => nameKey v = nameKey name.flatten).find?
        fun v => stricmpEq [v] name) := by
  rw [vhostLookup, if_neg hnil, h.bucket, tfwHashStr_flatten]
  rfl

lemma Reconfig.Ok.mem_of_lookup (h : c.Ok) (hv : vhostLookup c.vhHash name = some v) :
    v ∈ c.names ∧ name.flatten ≠ [] ∧ nameKey v = nameKey name.flatten := by
  have hnil : name.flatten ≠ [] := by
    intro hnil
    rw [vhostLookup, if_pos hnil] at hv
    cases hv
  rw [h.lookup_eq hnil] at hv
  obtain ⟨hmem, hkey⟩ := mem_filter.mp (mem_of_find?_eq_some hv)
  exact ⟨hmem, hnil, of_decide_eq_true hkey⟩

/-- The host of the wanted name is the first one of the bucket that passes the comparison,
unless a newer one does. -/
lemma Reconfig.Ok.lookup_of_clear (h : c.Ok) (hv : v ∈ c.names)
    (hsame : caseEq v name.flatten = true) (hnil : name.flatten ≠ [])
    (hkey : nameKey v = nameKey name.flatten)
    (hclear : ∀ w ∈ ahead c name.flatten, nameKey w = nameKey name.flatten →
      stricmpEq [w] name = false) :
    vhostLookup c.vhHash name = some v := by
  have hfront : ((ahead c name.flatten).filter fun v => nameKey v = nameKey name.flatten).find?
      (fun v => stricmpEq [v] name) = none := by
    refine find?_eq_none.mpr fun w hw => ?_
    obtain ⟨hw, hwkey⟩ := mem_filter.mp hw
    rw [hclear w hw (of_decide_eq_true hwkey)]
    exact Bool.false_ne_true
  have hsplit : c.names = ahead c name.flatten ++
      c.names.dropWhile fun v => !caseEq v name.flatten := takeWhile_append_dropWhile.symm
  rw [h.lookup_eq hnil, hsplit, filter_append, find?_append, hfront, Option.none_or]
  have hback : (c.names.dropWhile fun v => !caseEq v name.flatten) ≠ [] := by
    intro hempty
    have := dropWhile_eq_nil_iff.mp hempty v hv
    rw [hsame] at this
    cases this
  obtain ⟨x, rest, hrest⟩ := exists_cons_of_ne_nil hback
  have hx := head_dropWhile_not (fun v => !caseEq v name.flatten) hback
  simp only [hrest, head_cons, Bool.not_eq_false'] at hx
  have hxmem : x ∈ c.names := (dropWhile_suffix _).subset (hrest ▸ mem_cons_self)
  obtain rfl := h.eq_of_strcaseEq hv hxmem (strcaseEq_of_caseEq hsame) (strcaseEq_of_caseEq hx)
  have hcmp : stricmpEq [v] name = true := stricmpEq_of_caseEq (by
    rw [flatten_cons, flatten_nil, append_nil]
    exact hsame)
  rw [hrest, filter_cons, if_pos (decide_eq_true hkey), find?_cons, hcmp]

lemma Reconfig.Ok.lookupReconfig_eq (h : c.Ok) (hv : v ∈ c.names)
    (hsame : caseEq v name.flatten = true) (hkey : nameKey v = nameKey name.flatten) :
    vhostLookupReconfig c.vhHash name.flatten = some v := by
  have hmatch := strcaseEq_of_caseEq hsame
  rw [vhostLookupReconfig, h.bucket]
  cases hfind : (c.names.filter fun v => nameKey v = nameKey name.flatten).find?
      (strcaseEq · name.flatten) with
  | none =>
    exact absurd hmatch (find?_eq_none.mp hfind v (mem_filter.mpr ⟨hv, decide_eq_true hkey⟩))
  | some x =>
    have hxmem := (mem_filter.mp (mem_of_find?_eq_some hfind)).1
    have hx := find?_some hfind
    rw [h.eq_of_strcaseEq hxmem hv hx hmatch]

end Lookup

/-- For every configuration and every name in any chunks: the lookups find the host whose name
is equal but for case, and only that one, exactly if such a name falls into the same bucket
and no newer host of the bucket passes the comparison of the vector code. -/
theorem vhostLookup_finds_iff (names : List (List UInt8)) (c : Reconfig)
    (h : configure names = some c) (name : List (List UInt8)) :
    Finds c name ↔
      (∀ v ∈ c.names, caseEq v name.flatten = true →
        name.flatten ≠ [] ∧ nameKey v = nameKey name.flatten) ∧
      ∀ w ∈ ahead c name.flatten, nameKey w = nameKey name.flatten →
        stricmpEq [w] name = false := by
  have hok := configure_ok h
  have hahead : ∀ w ∈ ahead c name.flatten, w ∈ c.names ∧ caseEq w name.flatten = false := by
    intro w hw
    exact ⟨( takeWhile_prefix _).subset hw, by simpa using mem_takeWhile_imp hw⟩
  constructor
  · rintro ⟨hfound, honly⟩
    refine ⟨fun v hv hm => (hok.mem_of_lookup (hfound v hv hm).1).2, fun w hw hkey => ?_⟩
    by_contra hcmp
    have hcmp := (Bool.not_eq_false _).mp hcmp
    have hnil : name.flatten ≠ [] := by
      intro hnil
      rw [stricmpEq, hnil, Bool.and_eq_true, beq_iff_eq, flatten_cons, flatten_nil, append_nil,
        length_nil] at hcmp
      have hw' := (hahead w hw).2
      rw [length_eq_zero_iff.mp hcmp.1, hnil] at hw'
      cases hw'
    have hsome : (((ahead c name.flatten).filter fun v => nameKey v = nameKey name.flatten).find?
        fun v => stricmpEq [v] name).isSome = true :=
      find?_isSome.mpr ⟨w, mem_filter.mpr ⟨hw, decide_eq_true hkey⟩, hcmp⟩
    obtain ⟨x, hx⟩ := Option.isSome_iff_exists.mp hsome
    have hsplit : c.names = ahead c name.flatten ++
        c.names.dropWhile fun v => !caseEq v name.flatten := takeWhile_append_dropWhile.symm
    have hlookup : vhostLookup c.vhHash name = some x := by
      rw [hok.lookup_eq hnil, hsplit, filter_append, find?_append, hx, Option.some_or]
    have hxmem := (mem_filter.mp (mem_of_find?_eq_some hx)).1
    have := (honly x hlookup).2
    rw [(hahead x hxmem).2] at this
    cases this
  · rintro ⟨hkey, hclear⟩
    have hfound : ∀ v ∈ c.names, caseEq v name.flatten = true →
        vhostLookup c.vhHash name = some v := by
      intro v hv hm
      obtain ⟨hnil, hbucket⟩ := hkey v hv hm
      exact hok.lookup_of_clear hv hm hnil hbucket hclear
    constructor
    · intro v hv hm
      obtain ⟨hnil, hbucket⟩ := hkey v hv hm
      have hlookup := hfound v hv hm
      refine ⟨hlookup, hok.lookupReconfig_eq hv hm hbucket, ?_⟩
      rintro hdflt allowAnySni data rfl
      rw [flatten_cons, flatten_nil, append_nil] at hnil
      rw [tlsSni, if_neg hnil, hlookup]
      exact if_neg hdflt
    · intro v hlookup
      obtain ⟨hv, hnil, hbucket⟩ := hok.mem_of_lookup hlookup
      refine ⟨hv, ?_⟩
      by_cases hany : ∃ u ∈ c.names, caseEq u name.flatten = true
      · obtain ⟨u, hu, hm⟩ := hany
        obtain rfl := Option.some.inj (hlookup.symm.trans (hfound u hu hm))
        exact hm
      · have hall : ahead c name.flatten = c.names := by
          refine takeWhile_eq_self_iff.mpr fun u hu => ?_
          rw [Bool.not_eq_true']
          exact Bool.eq_false_iff.mpr fun hm => hany ⟨u, hu, hm⟩
        have hcmp := hclear v (hall ▸ hv) hbucket
        rw [hok.lookup_eq hnil] at hlookup
        have htaken := find?_some hlookup
        rw [hcmp] at htaken
        cases htaken

/-- Names of 50 bytes that differ in the last ten of them only -/
def portals : List (List UInt8) :=
  ["customer-portal.production.eu-central-1.ag.example",
    "customer-portal.production.eu-central-1.ai.example"].map ofAscii

/-- A host is found in another letter case that falls into its bucket, and one of two names
that the vector code does not tell apart in one piece is found in two. -/
theorem vhostLookup_finds_shop :
    (configure (ofAscii "shop.example.com" :: portals)).isSome = true ∧
      ∀ c, configure (ofAscii "shop.example.com" :: portals) = some c →
        Finds c [ofAscii "shoP.Exam", ofAscii "Ple.com"] ∧
        Finds c [ofAscii "customer-portal.production.", ofAscii "eu-central-1.ag.example"] := by
  refine ⟨by decide +kernel, fun c hc => ⟨?_, ?_⟩⟩
  all_goals
    refine (vhostLookup_finds_iff _ c hc _).mpr ?_
    cases hc
    decide +kernel

/-- The host `example.com` is not found as `Example.com`, and of the two long names the first
one is found as the second one. -/
theorem other_case_not_found :
    ((configure [ofAscii "example.com"]).map fun c =>
        (c.names, vhostLookup c.vhHash [ofAscii "Example.com"],
          tlsSni c.vhHash true (ofAscii "Example.com"))) =
      some ([ofAscii "default", ofAscii "example.com"], none, .dflt) ∧
      caseEq (ofAscii "example.com") (ofAscii "Example.com") = true ∧
      (configure portals).map (fun c => vhostLookup c.vhHash (portals.take 1)) =
        some portals[1]? := by
  decide +kernel

end Tempesta.Vhost
