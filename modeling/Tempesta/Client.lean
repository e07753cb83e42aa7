import Tempesta.Vhost

/-!
Clients in TDB. A client is known by its address, the one in `X-Forwarded-For` and the
first bytes of its `User-Agent`: they give the key of the record, a copy of them is stored
in it, and it is compared with them when the client comes again.
-/

namespace Tempesta.Client

open Vhost (tfwHashStr tfwHashStr_flatten hashCalcPairs)

abbrev In6Addr := Vector UInt8 16

/-- `IN6ADDR_ANY_INIT` -/
def anyAddr : In6Addr := Vector.replicate 16 0

open List

/-- `UA_CMP_LEN` -/
def uaCmpLen : Nat := 256

/-- The value of a header; the parser accepts no NUL in it. -/
structure UserAgent where
  chunks : List (List UInt8)
  noNul : 0 ∉ chunks.flatten

/-- The arguments of `tfw_client_obtain` -/
structure Call where
  addr : In6Addr
  xff : Option In6Addr
  userAgent : Option UserAgent

namespace Call

variable (c : Call)

/-- `ctx.xff_addr` -/
def xffAddr : In6Addr := c.xff.getD anyAddr

/-- `ctx.user_agent` -/
def ua : List (List UInt8) := (c.userAgent.map UserAgent.chunks).getD [[]]

def uaText : List UInt8 := c.ua.flatten

end Call

/-- The chunks that `tfw_hash_str_len` reads -/
def limit : Nat → List (List UInt8) → List (List UInt8)
  | _, [] => []
  | n, c :: cs => if n = 0 then [] else c.take n :: limit (n - min c.length n) cs

def tfwHashStrLen (str : List (List UInt8)) (len : Nat) : UInt64 := tfwHashStr (limit len str)

def Call.key (c : Call) : UInt64 :=
  tfwHashStr [c.addr.toList] ^^^
    (match c.xff with
      | none => 0
      | some a => tfwHashStr [a.toList]) ^^^
    match c.userAgent with
      | none => 0
      | some u => tfwHashStrLen u.chunks uaCmpLen

def strncpy (src : List UInt8) (len : Nat) : List UInt8 :=
  let s := (src.take len).takeWhile (· ≠ 0)
  s ++ List.replicate (len - s.length) 0

/-- `tfw_str_to_cstr`, with the room that is left for text -/
def strToCstr : Nat → List (List UInt8) → List UInt8
  | _, [] => [0]
  | n, c :: cs =>
    let len := min n c.length
    strncpy c len ++ if n - len = 0 then [0] else strToCstr (n - len) cs

/-- `tfw_str_eq_cstr` without flags -/
def strEqCstr : List (List UInt8) → List UInt8 → Nat → Bool
  | [], _, clen => clen = 0
  | c :: cs, cstr, clen =>
    let len := min clen c.length
    if cstr.take len ≠ c.take len then false
    else if clen < c.length then false
    else strEqCstr cs (cstr.drop len) (clen - len)

structure TfwClientEntry where
  addr : In6Addr
  xffAddr : In6Addr
  userAgentLen : Nat
  userAgent : List UInt8

/-- `tfw_client_ent_init` -/
def entInit (c : Call) : TfwClientEntry where
  addr := c.addr
  xffAddr := c.xffAddr
  userAgentLen := min c.uaText.length uaCmpLen
  userAgent := strToCstr (uaCmpLen - 1) c.ua

/-- The comparison of `tfw_client_addr_eq`; what it then counts in the entry is not compared -/
def addrEq (ent : TfwClientEntry) (c : Call) : Bool :=
  ent.addr = c.addr && ent.xffAddr = c.xffAddr &&
    strEqCstr c.ua ent.userAgent ent.userAgentLen

structure TdbRec where
  id : Nat
  key : UInt64
  ent : TfwClientEntry

variable (walk : List TdbRec → List TdbRec)

/-- `tfw_client_obtain`: `tdb_rec_get_alloc` with the records of the key in the order of
`walk`. The client is given by the number of its record. -/
def clientObtain (db : List TdbRec) (c : Call) : List TdbRec × Nat :=
  match (walk (db.filter fun r => r.key = c.key)).find? fun r => addrEq r.ent c with
  | some r => (db, r.id)
  | none => (⟨db.length, c.key, entInit c⟩ :: db, db.length)

def run (db : List TdbRec) (cs : List Call) : List TdbRec :=
  cs.foldl (fun db c => (clientObtain walk db c).1) db

variable {n len clen : Nat} {cs : List (List UInt8)} {src cstr : List UInt8}

theorem flatten_limit : (limit n cs).flatten = cs.flatten.take n := by
  induction cs generalizing n with
  | nil => simp [limit]
  | cons c cs ih =>
    rw [limit]
    split
    · simp [*]
    · rw [flatten_cons, ih, flatten_cons, take_append]
      congr 2
      omega

/-- `hash_calc` -/
def hashCalc (data : List UInt8) : UInt64 :=
  let crc := hashCalcPairs (data.length / 16) (0, 0) data
  (crc.2.toUInt64 <<< 32) ||| crc.1.toUInt64

/-- However a string is cut into chunks, its hash is that of its first bytes in one buffer. -/
theorem tfwHashStrLen_eq_hashCalc (str : List (List UInt8)) (len : Nat) :
    tfwHashStrLen str len = hashCalc (str.flatten.take len) := by
  rw [tfwHashStrLen, tfwHashStr_flatten, flatten_limit]
  rfl

lemma strncpy_eq (h : 0 ∉ src) (hlen : len ≤ src.length) : strncpy src len = src.take len := by
  have hs : (src.take len).takeWhile (· ≠ 0) = src.take len := by
    rw [takeWhile_eq_self_iff]
    intro b hb
    have hb0 : b ≠ 0 := fun hb0 => h (hb0 ▸ mem_of_mem_take hb)
    exact decide_eq_true hb0
  rw [strncpy, hs, length_take, Nat.min_eq_left hlen, Nat.sub_self]
  exact append_nil _

lemma strToCstr_eq (n : Nat) (h : 0 ∉ cs.flatten) :
    strToCstr n cs = cs.flatten.take n ++ [0] := by
  induction cs generalizing n with
  | nil => simp [strToCstr]
  | cons c cs ih =>
    rw [flatten_cons, mem_append, not_or] at h
    rw [strToCstr, strncpy_eq h.1 (Nat.min_le_right _ _), flatten_cons, take_append]
    split
    next hn =>
      have : n - c.length = 0 := by omega
      rw [this, take_zero, append_nil, Nat.min_eq_left (by omega)]
    next hn =>
      have hc : c.length ≤ n := by omega
      rw [ih _ h.2, Nat.min_eq_right hc, take_length, take_of_length_le hc,
        append_assoc]

lemma strEqCstr_iff (h : clen ≤ cstr.length) :
    strEqCstr cs cstr clen = true ↔ cs.flatten = cstr.take clen := by
  induction cs generalizing cstr clen with
  | nil =>
    rw [strEqCstr, decide_eq_true_eq, flatten_nil, eq_comm (a := []),
      take_eq_nil_iff]
    exact ⟨.inl, fun h' => h'.elim id fun hnil => by rw [hnil] at h; exact Nat.le_zero.mp h⟩
  | cons c cs ih =>
    rw [strEqCstr, flatten_cons]
    by_cases hlong : clen < c.length
    · have hne : c ++ cs.flatten ≠ cstr.take clen := by
        intro heq
        have hlen := congrArg length heq
        rw [length_append, length_take] at hlen
        omega
      simp [hlong, hne]
    · have hc : c.length ≤ clen := Nat.le_of_not_lt hlong
      rw [Nat.min_eq_right hc, take_length, if_neg hlong]
      have hsplit : cstr.take clen =
          cstr.take c.length ++ (cstr.drop c.length).take (clen - c.length) := by
        rw [← take_add, Nat.add_sub_cancel' hc]
      have hlen : (cstr.take c.length).length = c.length :=
        length_take_of_le (Nat.le_trans hc h)
      rw [hsplit]
      by_cases heq : cstr.take c.length = c
      · rw [if_neg (not_not.mpr heq), ih (by rw [length_drop]; omega), heq,
          append_cancel_left_eq]
      · rw [if_pos heq]
        exact ⟨nofun, fun happ => absurd (append_inj_left happ hlen.symm).symm heq⟩

lemma Call.noNul (c : Call) : 0 ∉ c.uaText := by
  unfold Call.uaText Call.ua
  cases c.userAgent with
  | none => decide
  | some u => exact u.noNul

/-- Calls with the same `TfwClientEqCtx` up to the chunks of the User-Agent -/
def Alike (a b : Call) : Prop :=
  a.addr = b.addr ∧ a.xffAddr = b.xffAddr ∧ a.uaText = b.uaText

variable {a b : Call}

lemma Alike.symm (h : Alike a b) : Alike b a :=
  ⟨h.1.symm, h.2.1.symm, h.2.2.symm⟩

lemma Alike.trans {c : Call} (h : Alike a b) (h' : Alike b c) : Alike a c :=
  ⟨h.1.trans h'.1, h.2.1.trans h'.2.1, h.2.2.trans h'.2.2⟩

/-- The copy of a long User-Agent ends in a NUL, which none that comes has in it -/
theorem addrEq_entInit : addrEq (entInit a) b = true ↔ Alike a b ∧ b.uaText.length < uaCmpLen := by
  have hua : strEqCstr b.ua (entInit a).userAgent (entInit a).userAgentLen = true ↔
      a.uaText = b.uaText ∧ b.uaText.length < uaCmpLen := by
    have hcopy : (entInit a).userAgent = a.uaText.take 255 ++ [0] := strToCstr_eq _ a.noNul
    have hlen : (entInit a).userAgentLen = min a.uaText.length 256 := rfl
    have hroom : min a.uaText.length 256 ≤ (a.uaText.take 255 ++ [0]).length := by
      rw [length_append, length_take, length_singleton]
      omega
    rw [hcopy, hlen, strEqCstr_iff hroom, uaCmpLen]
    change b.uaText = _ ↔ _
    by_cases hshort : a.uaText.length < 256
    · rw [Nat.min_eq_left hshort.le, take_of_length_le (by omega : a.uaText.length ≤ 255),
        take_left]
      exact ⟨fun h => ⟨h.symm, h ▸ hshort⟩, fun h => h.1.symm⟩
    · have hall : (a.uaText.take 255 ++ [0]).length ≤ 256 := by
        rw [length_append, length_take]
        exact Nat.succ_le_succ (Nat.min_le_left _ _)
      rw [Nat.min_eq_right (by omega), take_of_length_le hall]
      constructor
      · intro h
        exact absurd (h ▸ mem_append_right _ (mem_singleton_self 0)) b.noNul
      · rintro ⟨h, hb⟩
        exact absurd (h ▸ hb) hshort
  rw [addrEq, Bool.and_eq_true, Bool.and_eq_true, decide_eq_true_eq, decide_eq_true_eq, hua,
    Alike, and_assoc, and_assoc, and_assoc]
  rfl

lemma Call.key_eq (c : Call) :
    c.key = tfwHashStr [c.addr.toList] ^^^ tfwHashStr [c.xffAddr.toList] ^^^
      tfwHashStr [c.uaText.take uaCmpLen] := by
  have hany : tfwHashStr [anyAddr.toList] = 0 := by decide +kernel
  have hnone : tfwHashStr [[]] = 0 := by decide +kernel
  unfold Call.key Call.xffAddr Call.uaText Call.ua tfwHashStrLen
  cases c.xff <;> cases c.userAgent <;>
    simp [hany, hnone, tfwHashStr_flatten (limit _ _), flatten_limit]

lemma Alike.key_eq (h : Alike a b) : a.key = b.key := by
  rw [a.key_eq, b.key_eq, h.1, h.2.1, h.2.2]

/-- Each record was made for a client, and no two of them answer to the same call -/
structure Inv (db : List TdbRec) : Prop where
  id : ∀ r ∈ db, r.id < db.length
  made : ∀ r ∈ db, ∃ c : Call, r.key = c.key ∧ r.ent = entInit c
  unique : ∀ r ∈ db, ∀ r' ∈ db,
    (r.id = r'.id ∨ ∃ c, addrEq r.ent c = true ∧ addrEq r'.ent c = true) → r = r'

lemma inv_nil : Inv [] := ⟨by simp, by simp, by simp⟩

variable {db : List TdbRec} {walk} {c : Call}

lemma Inv.add (hi : Inv db) (hnone : ∀ r ∈ db, addrEq r.ent c = false) :
    Inv (⟨db.length, c.key, entInit c⟩ :: db) := by
  have hnew : ∀ r ∈ db, r.id ≠ db.length ∧
      ∀ d, addrEq r.ent d = true → addrEq (entInit c) d = true → False := by
    intro r hr
    refine ⟨(hi.id r hr).ne, fun d hd hcd => ?_⟩
    obtain ⟨a, -, hent⟩ := hi.made r hr
    rw [hent, addrEq_entInit] at hd
    obtain ⟨hcd, hshort⟩ := addrEq_entInit.mp hcd
    have hrc : addrEq r.ent c = true :=
      hent ▸ addrEq_entInit.mpr ⟨hd.1.trans hcd.symm, hcd.2.2 ▸ hshort⟩
    rw [hnone r hr] at hrc
    cases hrc
  constructor
  · exact List.forall_mem_cons.mpr
      ⟨Nat.lt_succ_self _, fun r hr => Nat.lt_succ_of_lt (hi.id r hr)⟩
  · exact List.forall_mem_cons.mpr ⟨⟨c, rfl, rfl⟩, hi.made⟩
  · intro r hr r' hr' heq
    cases hr with
    | head =>
      cases hr' with
      | head => rfl
      | tail _ hr' =>
        obtain heq | ⟨d, hd, hd'⟩ := heq
        · exact absurd heq.symm (hnew r' hr').1
        · exact ((hnew r' hr').2 d hd' hd).elim
    | tail _ hr =>
      cases hr' with
      | head =>
        obtain heq | ⟨d, hd, hd'⟩ := heq
        · exact absurd heq (hnew r hr).1
        · exact ((hnew r hr).2 d hd hd').elim
      | tail _ hr' => exact hi.unique r hr r' hr' heq

section Walk

variable (hwalk : ∀ l, (walk l).Perm l)
include hwalk

/-- What `tfw_client_obtain` does: the client of a record that answers, or a new record -/
theorem clientObtain_cases (hi : Inv db) (c : Call) :
    (∃ r ∈ db, addrEq r.ent c = true ∧ clientObtain walk db c = (db, r.id)) ∨
      (∀ r ∈ db, addrEq r.ent c = false) ∧
        clientObtain walk db c = (⟨db.length, c.key, entInit c⟩ :: db, db.length) := by
  unfold clientObtain
  cases hf : (walk (db.filter fun r => r.key = c.key)).find? fun r => addrEq r.ent c with
  | some r =>
    have hmem := (hwalk _).mem_iff.mp (mem_of_find?_eq_some hf)
    have heq := @List.find?_some _ (fun r : TdbRec => addrEq r.ent c) _ _ hf
    exact .inl ⟨r, mem_of_mem_filter hmem, heq, rfl⟩
  | none =>
    refine .inr ⟨fun r hr => ?_, rfl⟩
    by_contra heq
    rw [Bool.not_eq_false] at heq
    obtain ⟨a, hkey, hent⟩ := hi.made r hr
    have hfilter : r ∈ db.filter fun r => r.key = c.key := by
      rw [mem_filter, decide_eq_true_eq, hkey]
      exact ⟨hr, (addrEq_entInit.mp (hent ▸ heq)).1.key_eq⟩
    exact List.find?_eq_none.mp hf r ((hwalk _).mem_iff.mpr hfilter) heq

lemma Inv.obtain (hi : Inv db) (c : Call) :
    Inv (clientObtain walk db c).1 ∧ db ⊆ (clientObtain walk db c).1 := by
  obtain ⟨r, -, -, h⟩ | ⟨hnone, h⟩ := clientObtain_cases hwalk hi c
  · rw [h]
    exact ⟨hi, List.Subset.refl _⟩
  · rw [h]
    exact ⟨hi.add hnone, subset_cons_self _ _⟩

lemma Inv.run (hi : Inv db) (cs : List Call) :
    Inv (run walk db cs) ∧ db ⊆ run walk db cs := by
  induction cs generalizing db with
  | nil => exact ⟨hi, List.Subset.refl _⟩
  | cons c cs ih =>
    have hstep := hi.obtain hwalk c
    have hrest := ih hstep.1
    exact ⟨hrest.1, List.Subset.trans hstep.2 hrest.2⟩

/-- The record of the client that is returned was made for such a call; it was there and
answers, or no record does and it is new. -/
theorem obtain_rec (hi : Inv db) (c : Call) :
    ∃ r ∈ (clientObtain walk db c).1, (clientObtain walk db c).2 = r.id ∧
      (∃ d, r.ent = entInit d ∧ Alike d c) ∧
      (r ∈ db ∧ addrEq r.ent c = true ∨
        r.id = db.length ∧ ∀ r ∈ db, addrEq r.ent c = false) := by
  obtain ⟨r, hr, heq, h⟩ | ⟨hnone, h⟩ := clientObtain_cases hwalk hi c
  · rw [h]
    obtain ⟨d, -, hent⟩ := hi.made r hr
    exact ⟨r, hr, rfl, ⟨d, hent, (addrEq_entInit.mp (hent ▸ heq)).1⟩, .inl ⟨hr, heq⟩⟩
  · rw [h]
    exact ⟨_, mem_cons_self, rfl, ⟨c, rfl, rfl, rfl, rfl⟩, .inr ⟨rfl, hnone⟩⟩

end Walk

/-- Equal addresses, and User-Agents that agree where they are compared -/
def Same (a b : Call) : Prop :=
  a.addr = b.addr ∧ a.xff = b.xff ∧ a.uaText.take uaCmpLen = b.uaText.take uaCmpLen

def Differ (a b : Call) : Prop := a.addr ≠ b.addr ∨ a.xff ≠ b.xff

/-- The clients of two calls, with other calls before and between them -/
def clients (walk : List TdbRec → List TdbRec) (before between : List Call) (a b : Call) :
    Nat × Nat :=
  let x := clientObtain walk (run walk [] before) a
  (x.2, (clientObtain walk (run walk x.1 between) b).2)

def Identified (walk : List TdbRec → List TdbRec) (a b : Call) : Prop :=
  ∀ before between,
    (Same a b → (clients walk before between a b).1 = (clients walk before between a b).2) ∧
    (Differ a b → (clients walk before between a b).1 ≠ (clients walk before between a b).2)

/-- The calls have the same short User-Agent, one is without `X-Forwarded-For` and the other
has the address `::` there. -/
def Confused (a b : Call) : Prop :=
  Differ a b ∧ Alike a b ∧ b.uaText.length < uaCmpLen

lemma Same.alike (h : Same a b) (hshort : a.uaText.length < uaCmpLen) :
    Alike a b ∧ b.uaText.length < uaCmpLen := by
  obtain ⟨haddr, hxff, hua⟩ := h
  rw [take_of_length_le hshort.le] at hua
  have hb : b.uaText.length < uaCmpLen := by
    have hlen := congrArg length hua
    rw [length_take] at hlen
    omega
  rw [take_of_length_le hb.le] at hua
  exact ⟨⟨haddr, by rw [Call.xffAddr, hxff]; rfl, hua⟩, hb⟩

/-- Two calls get the same client when they are alike and the User-Agent is short, whatever
is called before and between them. -/
theorem clients_eq_iff {walk : List TdbRec → List TdbRec} (hwalk : ∀ l, (walk l).Perm l)
    (before between : List Call) (a b : Call) :
    (clients walk before between a b).1 = (clients walk before between a b).2 ↔
      Alike a b ∧ b.uaText.length < uaCmpLen := by
  have hi := (inv_nil.run hwalk before).1
  obtain ⟨r, hr, hid, ⟨d, hent, hda⟩, -⟩ := obtain_rec hwalk hi a
  obtain ⟨hi', hsub⟩ := (hi.obtain hwalk a).1.run hwalk between
  obtain ⟨r', -, hid', -, hr'⟩ := obtain_rec hwalk hi' b
  simp only [clients, hid, hid']
  have hanswers : addrEq r.ent b = true ↔ Alike a b ∧ b.uaText.length < uaCmpLen := by
    rw [hent, addrEq_entInit]
    exact and_congr_left fun _ => ⟨hda.symm.trans, hda.trans⟩
  rw [← hanswers]
  obtain ⟨hmem, heq⟩ | ⟨hnew, hnone⟩ := hr'
  · constructor
    · intro h
      rwa [hi'.unique r (hsub hr) r' hmem (.inl h)]
    · intro h
      rw [hi'.unique r (hsub hr) r' hmem (.inr ⟨b, h, heq⟩)]
  · have hlt := hi'.id r (hsub hr)
    rw [hnone r (hsub hr)]
    exact ⟨fun h => absurd (h.trans hnew) hlt.ne, nofun⟩

theorem identified_iff (walk : List TdbRec → List TdbRec) (hwalk : ∀ l, (walk l).Perm l)
    (a b : Call) :
    Identified walk a b ↔ (Same a b → a.uaText.length < uaCmpLen) ∧ ¬ Confused a b := by
  simp only [Identified, clients_eq_iff hwalk, forall_const, ne_eq]
  refine and_congr ⟨fun h hsame => ?_, fun h hsame => hsame.alike (h hsame)⟩ ?_
  · obtain ⟨⟨-, -, hua⟩, hshort⟩ := h hsame
    rwa [hua]
  · simp only [Confused, not_and]

theorem identified_curl :
    Identified id ⟨anyAddr, none, some ⟨[ofAscii "cu", ofAscii "rl"], by decide⟩⟩
      ⟨anyAddr, none, some ⟨[ofAscii "curl"], by decide⟩⟩ :=
  (identified_iff id (fun l => .refl l) _ _).mpr
    ⟨fun _ => by decide, fun h => h.1.elim (· rfl) (· rfl)⟩

/-- A User-Agent of `UA_CMP_LEN` letters, and the address `::` in `X-Forwarded-For` -/
theorem long_userAgent_new_client :
    let addr : In6Addr := Vector.replicate 16 1
    let c : Call := ⟨addr, some addr, some ⟨[List.replicate 256 0x61], by decide +kernel⟩⟩
    let x := clients id [] [] c c
    let y := clients id [] [] ⟨addr, none, none⟩ ⟨addr, some anyAddr, some ⟨[], by decide⟩⟩
    x.1 ≠ x.2 ∧ y.1 = y.2 := by
  refine ⟨fun h => ?_, (clients_eq_iff (fun l => .refl l) _ _ _ _).mpr ⟨⟨rfl, rfl, rfl⟩, by decide⟩⟩
  have hshort := ((clients_eq_iff (fun l => .refl l) _ _ _ _).mp h).2
  revert hshort
  decide +kernel

end Tempesta.Client
