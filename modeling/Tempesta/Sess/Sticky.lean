import Tempesta.Sess.Cookie

/-!
The value of a sticky cookie: a time stamp and an HMAC as hex text. A cookie that a
client sends back is decoded, the HMAC of its time stamp is computed anew and compared
digit by digit with the text, chunk after chunk.
-/

namespace Tempesta.Sess

open ScanLib Vector

def stickyKeyHmacLen : Nat := 20

/-- `unsigned char hmac[STICKY_KEY_HMAC_LEN]` -/
abbrev Hmac := Vector UInt8 20

structure StickyVal where
  ts : Nat
  hmac : Hmac
  deriving DecidableEq, Repr

/-- `StickyVal sv = {}` -/
def StickyVal.zero : StickyVal := ⟨0, Vector.replicate 20 0⟩

/-- `sizeof(StickyVal)` -/
def stickyValSize : Nat := 8 + stickyKeyHmacLen

/-- An `unsigned long` -/
def ulong (n : Nat) : Nat := n % 2 ^ 64

/-- `hex_to_bin` of the kernel -/
def hexToBin (ch : UInt8) : Int :=
  if 0x30 ≤ ch ∧ ch ≤ 0x39 then ch.toNat - 0x30
  else if 0x61 ≤ ch ∧ ch ≤ 0x66 then ch.toNat - 0x61 + 10
  else if 0x41 ≤ ch ∧ ch ≤ 0x46 then ch.toNat - 0x41 + 10
  else -1

/-- `hex_asc` of the kernel -/
def hexAsc (n : Nat) : UInt8 := (ofAscii "0123456789abcdef").getD n 0

def hexAscHi (b : UInt8) : UInt8 := hexAsc (b.toNat / 16)

def hexAscLo (b : UInt8) : UInt8 := hexAsc (b.toNat % 16)

/-- `obj->f = (obj->f << 4) + hex_to_bin(*tr)` for an unsigned field of `size` bytes -/
def shiftIn (size f : Nat) (b : UInt8) : Nat :=
  (16 * f + (hexToBin b % 2 ^ (8 * size)).toNat) % 2 ^ (8 * size)

/-- The inner loop of `HEX_STR_TO_BIN_GET`: what is left of the chunk -/
def getDigits (size : Nat) : Nat → Nat → List UInt8 → Nat × Nat × List UInt8
  | count, f, [] => (count, f, [])
  | count, f, b :: bs =>
    if count = 2 * size then (count, f, b :: bs)
    else getDigits size (count + 1) (shiftIn size f b) bs

/-- `HEX_STR_TO_BIN_GET` from `count` digits on: the field and the chunks from the cursor on -/
def hexStrToBinGet (size : Nat) : Nat → Nat → List (List UInt8) → Nat × List (List UInt8)
  | _, f, [] => (f, [])
  | count, f, c :: cs =>
    match getDigits size count f c with
    | (count', f', []) => hexStrToBinGet size count' f' cs
    | (_, f', rest) => (f', rest :: cs)

/-- How `HEX_STR_TO_BIN_HMAC` ends: `outside` is a read of `hmac[STICKY_KEY_HMAC_LEN]`, `bug`
the `BUG_ON` behind the loops. -/
inductive HmacRes where
  | success
  | violate
  | bug
  | outside
  deriving DecidableEq, Repr

/-- One character; the state is `i` and `hi`. -/
def hmacStep (hmac : Hmac) (s : Nat × Bool) (b : UInt8) : Nat × Bool ⊕ HmacRes :=
  match hmac[s.1]? with
  | none => .inr .outside
  | some x =>
    if (if s.2 then hexAscHi x else hexAscLo x) ≠ b then .inr .violate
    else .inl (if s.2 then s.1 else s.1 + 1, !s.2)

def hexStrToBinHmac (hmac : Hmac) (cursor : List (List UInt8)) : HmacRes :=
  if cursor = [] then .success
  else
    match feed (scan (hmacStep hmac)) (0, true) cursor with
    | .inr r => r
    | .inl (i, _) => if i ≠ stickyKeyHmacLen then .bug else .success

/-- The time stamp that a text of hex digits stands for -/
def hexTs (text : List UInt8) : Nat := text.foldl (shiftIn 8) 0

def bin2hex (bytes : List UInt8) : List UInt8 :=
  bytes.flatMap fun b => [hexAscHi b, hexAscLo b]

open List

theorem getDigits_spec (size count f : Nat) (c : List UInt8) (hcount : count ≤ 2 * size) :
    getDigits size count f c =
      (count + (c.take (2 * size - count)).length,
        (c.take (2 * size - count)).foldl (shiftIn size) f, c.drop (2 * size - count)) := by
  induction c generalizing count f with
  | nil => simp [getDigits]
  | cons b bs ih =>
    rw [getDigits]
    by_cases h : count = 2 * size
    · rw [if_pos h, h, Nat.sub_self]
      rfl
    · have hsub : 2 * size - count = (2 * size - (count + 1)) + 1 := by omega
      rw [if_neg h, ih (count + 1) _ (by omega), hsub, take_succ_cons,
        drop_succ_cons, length_cons, List.foldl_cons]
      congr 1
      omega

lemma hexStrToBinGet_spec (size count f : Nat) (cs : List (List UInt8))
    (hcount : count ≤ 2 * size) :
    (hexStrToBinGet size count f cs).1 =
        (cs.flatten.take (2 * size - count)).foldl (shiftIn size) f ∧
      (hexStrToBinGet size count f cs).2.flatten = cs.flatten.drop (2 * size - count) := by
  induction cs generalizing count f with
  | nil => simp [hexStrToBinGet]
  | cons c cs ih =>
    rw [hexStrToBinGet, getDigits_spec size count f c hcount, flatten_cons]
    rcases Nat.lt_or_ge (2 * size - count) c.length with hlt | hge
    · have hrest : c.drop (2 * size - count) ≠ [] := by
        rw [ne_eq, drop_eq_nil_iff]
        omega
      obtain ⟨x, xs, hx⟩ := exists_cons_of_ne_nil hrest
      rw [hx, take_append_of_le_length (Nat.le_of_lt hlt),
        drop_append_of_le_length (Nat.le_of_lt hlt), hx]
      exact ⟨rfl, rfl⟩
    · have hlen : (c.take (2 * size - count)).length = c.length := by
        rw [take_of_length_le hge]
      have hnext := ih (count + c.length) (c.foldl (shiftIn size) f) (by omega)
      rw [drop_of_length_le hge, hlen, take_of_length_le hge, take_append,
        drop_append, take_of_length_le hge, drop_of_length_le hge,
        List.foldl_append, List.nil_append]
      have hsub : 2 * size - count - c.length = 2 * size - (count + c.length) := by omega
      rw [hsub]
      exact hnext

lemma foldl_shiftIn_mod (size f : Nat) (text : List UInt8) :
    text.foldl (shiftIn size) f ≡ f * 16 ^ text.length + text.foldl (shiftIn size) 0
      [MOD 2 ^ (8 * size)] := by
  induction text using reverseRecOn with
  | nil =>
    rw [List.foldl_nil, List.foldl_nil, length_nil, Nat.pow_zero, Nat.mul_one, Nat.add_zero]
  | append_singleton text b ih =>
    obtain ⟨d, hd⟩ : ∃ d, d = (hexToBin b % 2 ^ (8 * size)).toNat := ⟨_, rfl⟩
    have hstep : ∀ g, shiftIn size g b ≡ 16 * g + d [MOD 2 ^ (8 * size)] := by
      intro g
      rw [hd]
      exact Nat.mod_modEq _ _
    rw [List.foldl_append, List.foldl_append, List.foldl_cons, List.foldl_nil, List.foldl_cons,
      List.foldl_nil, length_append, length_singleton]
    calc shiftIn size (text.foldl (shiftIn size) f) b
        ≡ 16 * text.foldl (shiftIn size) f + d [MOD 2 ^ (8 * size)] := hstep _
      _ ≡ 16 * (f * 16 ^ text.length + text.foldl (shiftIn size) 0) + d
            [MOD 2 ^ (8 * size)] := (ih.mul_left 16).add_right _
      _ = f * 16 ^ (text.length + 1) + (16 * text.foldl (shiftIn size) 0 + d) := by ring
      _ ≡ f * 16 ^ (text.length + 1) + shiftIn size (text.foldl (shiftIn size) 0) b
            [MOD 2 ^ (8 * size)] := (hstep _).symm.add_left _

variable {text bytes : List UInt8} {k : Nat} {b : UInt8}

lemma foldl_shiftIn_lt (size f : Nat) (h : text ≠ []) :
    text.foldl (shiftIn size) f < 2 ^ (8 * size) := by
  obtain ⟨init, b, rfl⟩ := (eq_nil_or_concat' text).resolve_left h
  rw [List.foldl_append, List.foldl_cons, List.foldl_nil]
  exact Nat.mod_lt _ (Nat.two_pow_pos _)

lemma foldl_shiftIn_eq_hexTs (f : Nat) (h : text.length = 16) :
    text.foldl (shiftIn 8) f = hexTs text := by
  have hne : text ≠ [] := by
    rintro rfl
    cases h
  have hmod := foldl_shiftIn_mod 8 f text
  have hzero : f * 16 ^ text.length ≡ 0 [MOD 2 ^ (8 * 8)] := by
    rw [h]
    exact (Nat.modEq_zero_iff_dvd).mpr (Dvd.intro_left f rfl)
  have heq := hmod.trans (hzero.add_right (text.foldl (shiftIn 8) 0))
  rw [Nat.zero_add] at heq
  exact Nat.ModEq.eq_of_lt_of_lt heq (foldl_shiftIn_lt 8 f hne) (foldl_shiftIn_lt 8 0 hne)

theorem length_bin2hex : (bin2hex bytes).length = 2 * bytes.length := by
  induction bytes with
  | nil => rfl
  | cons b bytes ih =>
    rw [bin2hex, flatMap_cons, length_append, length_cons]
    change 2 + (bin2hex bytes).length = 2 * (bytes.length + 1)
    omega

lemma getElem_bin2hex :
    (bin2hex bytes)[k]? =
      (bytes[k / 2]?).map fun x => if k % 2 = 0 then hexAscHi x else hexAscLo x := by
  induction bytes generalizing k with
  | nil => rfl
  | cons b bytes ih =>
    rw [bin2hex, flatMap_cons]
    change (hexAscHi b :: hexAscLo b :: bin2hex bytes)[k]? = _
    match k with
    | 0 => rfl
    | 1 => rfl
    | k + 2 =>
      have hdiv : (k + 2) / 2 = k / 2 + 1 := by omega
      have hmod : (k + 2) % 2 = k % 2 := by omega
      rw [getElem?_cons_succ, getElem?_cons_succ, ih, hdiv, hmod,
        getElem?_cons_succ]

/-- `i` and `hi` when `k` digits are compared -/
def digitSt (k : Nat) : Nat × Bool := (k / 2, k % 2 == 0)

lemma digitSt_succ :
    digitSt (k + 1) =
      (if (digitSt k).2 then (digitSt k).1 else (digitSt k).1 + 1, !(digitSt k).2) := by
  rcases Nat.mod_two_eq_zero_or_one k with h | h
  · have hdiv : (k + 1) / 2 = k / 2 := by omega
    have hmod : (k + 1) % 2 = 1 := by omega
    rw [digitSt, digitSt, hdiv, hmod, h]
    rfl
  · have hdiv : (k + 1) / 2 = k / 2 + 1 := by omega
    have hmod : (k + 1) % 2 = 0 := by omega
    rw [digitSt, digitSt, hdiv, hmod, h]
    rfl

section compare
variable (hmac : Hmac)

lemma hmacStep_digitSt (hk : k < 40) : ∃ d, (bin2hex hmac.toList)[k]? = some d ∧
    hmacStep hmac (digitSt k) b =
      if d ≠ b then .inr .violate else .inl (digitSt (k + 1)) := by
  have hi : k / 2 < 20 := by omega
  have hget : hmac[k / 2]? = some hmac[k / 2] := getElem?_eq_getElem hi
  have hlist : hmac.toList[k / 2]? = some hmac[k / 2] := by
    rw [← hget]
    exact getElem?_toList
  refine ⟨if (digitSt k).2 then hexAscHi hmac[k / 2] else hexAscLo hmac[k / 2], ?_, ?_⟩
  · rw [getElem_bin2hex, hlist, Option.map_some, digitSt]
    simp only [beq_iff_eq]
  · rw [digitSt_succ, hmacStep]
    change (match hmac[k / 2]? with
      | none => _
      | some x => _) = _
    rw [hget]

lemma scan_hmacStep_of_prefix (text : List UInt8) (h : text <+: (bin2hex hmac.toList).drop k) :
    scan (hmacStep hmac) (digitSt k) text = .inl (digitSt (k + text.length)) := by
  induction text generalizing k with
  | nil => rfl
  | cons c text ih =>
    have hlen : (bin2hex hmac.toList).length = 40 := by
      rw [length_bin2hex, length_toList]
    have hk : k < (bin2hex hmac.toList).length := by
      have := h.length_le
      rw [length_cons, length_drop] at this
      omega
    rw [drop_eq_getElem_cons hk, cons_prefix_cons] at h
    obtain ⟨d, hd, hstep⟩ := hmacStep_digitSt hmac (hlen ▸ hk) (b := c)
    rw [List.getElem?_eq_getElem hk, ← h.1, Option.some.injEq] at hd
    rw [if_neg (not_not_intro hd.symm)] at hstep
    rw [scan_next hstep, ih h.2, length_cons, Nat.add_assoc, Nat.add_comm 1]

lemma scan_hmacStep_of_not_prefix (text : List UInt8) (hlen : k + text.length ≤ 40)
    (h : ¬ text <+: (bin2hex hmac.toList).drop k) :
    scan (hmacStep hmac) (digitSt k) text = .inr .violate := by
  induction text generalizing k with
  | nil => exact absurd nil_prefix h
  | cons c text ih =>
    rw [length_cons] at hlen
    obtain ⟨d, hd, hstep⟩ := hmacStep_digitSt hmac (by omega : k < 40) (b := c)
    by_cases hc : d = c
    · rw [if_neg (not_not_intro hc)] at hstep
      rw [scan_next hstep]
      refine ih (by omega) fun hp => h ?_
      obtain ⟨hk, hget⟩ := List.getElem?_eq_some_iff.mp hd
      rw [drop_eq_getElem_cons hk, cons_prefix_cons, hget]
      exact ⟨hc.symm, hp⟩
    · rw [if_pos hc] at hstep
      exact scan_stop hstep

lemma hexStrToBinHmac_eq (cursor : List (List UInt8)) (h : cursor.flatten.length = 40) :
    hexStrToBinHmac hmac cursor =
      if cursor.flatten = bin2hex hmac.toList then .success else .violate := by
  have hne : cursor ≠ [] := by
    rintro rfl
    cases h
  have hlen : (bin2hex hmac.toList).length = 40 := by
    rw [length_bin2hex, length_toList]
  rw [hexStrToBinHmac, if_neg hne, feed_scan]
  by_cases heq : cursor.flatten = bin2hex hmac.toList
  · have hp : cursor.flatten <+: (bin2hex hmac.toList).drop 0 :=
      ⟨[], by rw [append_nil, heq, drop_zero]⟩
    have hscan : scan (hmacStep hmac) (0, true) cursor.flatten = .inl (digitSt (0 + 40)) := by
      rw [← h]
      exact scan_hmacStep_of_prefix hmac _ hp
    rw [hscan, if_pos heq]
    rfl
  · have hnot : ¬ cursor.flatten <+: (bin2hex hmac.toList).drop 0 :=
      fun hp => heq (hp.eq_of_length (by rw [drop_zero]; omega))
    have hscan : scan (hmacStep hmac) (0, true) cursor.flatten = .inr .violate :=
      scan_hmacStep_of_not_prefix hmac _ (by omega) hnot
    rw [hscan, if_neg heq]

end compare

/-- The configuration of sticky cookies, as far as a cookie is made and verified with it -/
structure Sticky where
  /-- `name_eq` is the name and a `=`; the name is empty if there are no sticky cookies. -/
  name : List UInt8
  learn : Bool
  enforce : Bool
  maxMisses : Nat
  tmtSec : UInt32
  sessLifetime : UInt32

/-- The places where `jiffies` is read while one request is processed -/
inductive Site where
  | badLength
  | expiry
  | challenge
  | session
  | expires
  | markTimeout
  | markRestart
  | markFirst
  deriving DecidableEq, Repr

/-- What the code calls for one request: the clock, the HMAC of a cookie for the address and the
`User-Agent` of the client and that of a redirection mark, with `none` for an error of the
cryptographic functions. -/
structure Env where
  jiffies : Site → Nat
  hz : UInt32
  stickyHmac : Nat → Option Hmac
  redirHmac : Nat → Nat → Option Hmac

/-- `TFW_HTTP_SESS_*` -/
inductive SessRet where
  | failure
  | success
  | redirectNeed
  | violate
  | jsNotSupported
  | jsRestart
  deriving DecidableEq, Repr

/-- A `BUG_ON`, or a read behind an array -/
inductive Fault where
  | bug
  | outside
  deriving DecidableEq, Repr

def HmacRes.ret : HmacRes → Except Fault SessRet
  | .success => .ok .success
  | .violate => .ok .violate
  | .bug => .error .bug
  | .outside => .error .outside

section verify
variable (env : Env) (sticky : Sticky)

/-- `__sticky_calc`: `false` for an error -/
def stickyCalcFor (sv : StickyVal) : Bool × StickyVal :=
  match env.stickyHmac sv.ts with
  | none => (false, sv)
  | some hmac => (true, { sv with hmac })

/-- `tfw_http_sticky_calc` -/
def stickyCalc (site : Site) (sv : StickyVal) : Bool × StickyVal :=
  stickyCalcFor env { sv with ts := env.jiffies site }

/-- `sv->ts + (unsigned long)sticky->sess_lifetime * HZ` -/
def expiresAt (ts : Nat) : Nat := ulong (ts + ulong (sticky.sessLifetime.toNat * env.hz.toNat))

/-- `tfw_http_sticky_verify` of a value in chunks, with the sticky value it leaves -/
def stickyVerify (value : List (List UInt8)) (sv : StickyVal) :
    Except Fault (SessRet × StickyVal) :=
  if sticky.learn then .ok (.success, sv)
  else if value.flatten.length ≠ stickyValSize * 2 then
    .ok (.violate, (stickyCalc env .badLength sv).2)
  else
    let (ts, cursor) := hexStrToBinGet 8 0 sv.ts value
    match stickyCalcFor env { sv with ts } with
    | (false, sv') => .ok (.violate, sv')
    | (true, sv') => do
        let r ← (hexStrToBinHmac sv'.hmac cursor).ret
        if r ≠ .success then return (r, sv')
        else if expiresAt env sticky sv'.ts < env.jiffies .expiry then return (.violate, sv')
        else return (.success, sv')

/-- The value is a cookie of Tempesta: a time stamp and the digits of the HMAC for it. -/
def Authentic (value : List UInt8) : Prop :=
  value.length = 2 * stickyValSize ∧
    ∃ hmac, env.stickyHmac (hexTs (value.take 16)) = some hmac ∧
      value.drop 16 = bin2hex hmac.toList

/-- `ts` lies not further back than a session lives. -/
def Unexpired (ts : Nat) : Prop :=
  env.jiffies .expiry ≤ ts + sticky.sessLifetime.toNat * env.hz.toNat

/-- The checks on the time stamp and the digits of a value of the right length -/
def passes (value : List UInt8) : Bool :=
  (env.stickyHmac (hexTs (value.take 16))).any fun hmac =>
    value.drop 16 = bin2hex hmac.toList ∧
      env.jiffies .expiry ≤ expiresAt env sticky (hexTs (value.take 16))

variable {env sticky}

lemma expiresAt_le (ts : Nat) :
    expiresAt env sticky ts ≤ ts + sticky.sessLifetime.toNat * env.hz.toNat :=
  calc expiresAt env sticky ts
      ≤ ts + ulong (sticky.sessLifetime.toNat * env.hz.toNat) := Nat.mod_le ..
    _ ≤ ts + sticky.sessLifetime.toNat * env.hz.toNat :=
        Nat.add_le_add_left (Nat.mod_le ..) ts

/-- What verification does with a value of the right length: it depends on the bytes only, and
the time stamp of the client stays in the sticky value. -/
theorem stickyVerify_eq (env : Env) (hlearn : sticky.learn = false) (value : List (List UInt8))
    (sv : StickyVal) (hlen : value.flatten.length = stickyValSize * 2) :
    stickyVerify env sticky value sv =
      .ok (if passes env sticky value.flatten then .success else .violate,
        ⟨hexTs (value.flatten.take 16),
          (env.stickyHmac (hexTs (value.flatten.take 16))).getD sv.hmac⟩) := by
  have h56 : value.flatten.length = 56 := hlen
  obtain ⟨hts, hcursor⟩ := hexStrToBinGet_spec 8 0 sv.ts value (by omega)
  rw [foldl_shiftIn_eq_hexTs sv.ts (by rw [length_take]; omega)] at hts
  rw [stickyVerify, if_neg (by simp [hlearn]), if_neg (not_not_intro hlen), passes]
  rcases hget : hexStrToBinGet 8 0 sv.ts value with ⟨ts, cursor⟩
  rw [hget] at hts hcursor
  change ts = hexTs (value.flatten.take 16) at hts
  change cursor.flatten = value.flatten.drop 16 at hcursor
  have h40 : cursor.flatten.length = 40 := by
    rw [hcursor, length_drop]
    omega
  dsimp only
  rw [hts]
  cases henv : env.stickyHmac (hexTs (value.flatten.take 16)) with
  | none =>
    rw [show stickyCalcFor env ⟨hexTs (value.flatten.take 16), sv.hmac⟩ =
      (false, ⟨hexTs (value.flatten.take 16), sv.hmac⟩) by rw [stickyCalcFor, henv]]
    rfl
  | some hmac =>
    have hcmp := hexStrToBinHmac_eq hmac cursor h40
    rw [hcursor] at hcmp
    rw [show stickyCalcFor env ⟨hexTs (value.flatten.take 16), sv.hmac⟩ =
      (true, ⟨hexTs (value.flatten.take 16), hmac⟩) by rw [stickyCalcFor, henv]]
    simp only [hcmp, Option.any_some, decide_eq_true_eq]
    by_cases hand : value.flatten.drop 16 = bin2hex hmac.toList ∧
        env.jiffies .expiry ≤ expiresAt env sticky (hexTs (value.flatten.take 16))
    · rw [if_pos hand, if_pos hand.1, if_neg (Nat.not_lt.mpr hand.2)]
      rfl
    · rw [if_neg hand]
      by_cases heq : value.flatten.drop 16 = bin2hex hmac.toList
      · rw [if_pos heq, if_pos (Nat.not_le.mp fun hexp => hand ⟨heq, hexp⟩)]
        rfl
      · rw [if_neg heq]
        rfl

lemma stickyVerify_bad_length (env : Env) (hlearn : sticky.learn = false)
    (value : List (List UInt8)) (sv : StickyVal) (hlen : value.flatten.length ≠ stickyValSize * 2) :
    stickyVerify env sticky value sv = .ok (.violate, (stickyCalc env .badLength sv).2) := by
  rw [stickyVerify, if_neg (by simp [hlearn]), if_pos hlen]

/-- For every value in any chunks: the loops stay inside the HMAC and compare all of it, and a
value passes only as an authentic cookie that has not expired. -/
theorem stickyVerify_sound (env : Env) (sticky : Sticky) (hlearn : sticky.learn = false)
    (value : List (List UInt8)) (sv : StickyVal) :
    ∃ r sv', stickyVerify env sticky value sv = .ok (r, sv') ∧
      (r = .success → Authentic env value.flatten ∧
        Unexpired env sticky (hexTs (value.flatten.take 16))) := by
  by_cases hlen : value.flatten.length = stickyValSize * 2
  · refine ⟨_, _, stickyVerify_eq env hlearn value sv hlen, fun hr => ?_⟩
    have hpass : passes env sticky value.flatten = true := by
      by_contra hnot
      rw [if_neg hnot] at hr
      cases hr
    obtain ⟨hmac, henv, htext⟩ := (Option.any_eq_true _ _).mp hpass
    rw [decide_eq_true_eq] at htext
    refine ⟨⟨?_, hmac, henv, htext.1⟩, Nat.le_trans htext.2 (expiresAt_le _)⟩
    rw [hlen, Nat.mul_comm]
  · exact ⟨_, _, stickyVerify_bad_length env hlearn value sv hlen, nofun⟩

theorem stickyVerify_sound_three_chunks :
    stickyVerify ⟨fun _ => 1000, 100, fun _ => some (Vector.replicate 20 0x5f), fun _ _ => none⟩
        ⟨ofAscii "__tfw", false, true, 0, 0, 5⟩
        [ofAscii "000000000000", ofAscii "03D85", ofAscii "f5f5f5f5f5f5f5f5f5f5f5f5f5f5f5f5f5f5f5f"]
        .zero = .ok (.success, ⟨984, Vector.replicate 20 0x5f⟩) ∧
      Authentic ⟨fun _ => 1000, 100, fun _ => some (Vector.replicate 20 0x5f), fun _ _ => none⟩
        (ofAscii "00000000000003D85f5f5f5f5f5f5f5f5f5f5f5f5f5f5f5f5f5f5f5f") := by
  have hok : stickyVerify
      ⟨fun _ => 1000, 100, fun _ => some (replicate 20 0x5f), fun _ _ => none⟩
      ⟨ofAscii "__tfw", false, true, 0, 0, 5⟩
      [ofAscii "000000000000", ofAscii "03D85", ofAscii "f5f5f5f5f5f5f5f5f5f5f5f5f5f5f5f5f5f5f5f"]
      .zero = .ok (.success, ⟨984, replicate 20 0x5f⟩) := by rfl
  obtain ⟨r, sv', hr, hsound⟩ := stickyVerify_sound
    ⟨fun _ => 1000, 100, fun _ => some (replicate 20 0x5f), fun _ _ => none⟩
    ⟨ofAscii "__tfw", false, true, 0, 0, 5⟩ rfl
    [ofAscii "000000000000", ofAscii "03D85",
      ofAscii "f5f5f5f5f5f5f5f5f5f5f5f5f5f5f5f5f5f5f5f"] .zero
  cases hok.symm.trans hr
  exact ⟨hok, (hsound rfl).1⟩

end verify

/-- The last `k` bytes of a number, the highest one first -/
def beBytes : Nat → Nat → List UInt8
  | 0, _ => []
  | k + 1, v => beBytes k (v / 256) ++ [UInt8.ofNat v]

/-- The cookie that is sent for a sticky value: `bin2hex` of the time stamp, which
`cpu_to_be64` has turned, and of the HMAC -/
def cookieText (sv : StickyVal) : List UInt8 :=
  bin2hex (beBytes 8 sv.ts) ++ bin2hex sv.hmac.toList

lemma shiftIn_hexAsc {n f : Nat} (hn : n < 16) :
    shiftIn 8 f (hexAsc n) = (16 * f + n) % 2 ^ 64 := by
  have hdigit : ∀ n < 16, hexToBin (hexAsc n) = n := by decide
  rw [shiftIn, hdigit n hn]
  congr 2
  omega

lemma hexTs_beBytes {v : Nat} (hk : k ≤ 8) : hexTs (bin2hex (beBytes k v)) = v % 256 ^ k := by
  induction k generalizing v with
  | zero => rw [Nat.pow_zero, Nat.mod_one, beBytes, bin2hex, flatMap_nil, hexTs, foldl_nil]
  | succ k ih =>
    have hpow : 256 ^ k ≤ 256 ^ 7 := Nat.pow_le_pow_right (by decide) (by omega)
    have hlt : v / 256 % 256 ^ k < 256 ^ k := Nat.mod_lt _ (Nat.pow_pos (by decide))
    have hmod : v % 256 ^ (k + 1) = v % 256 + 256 * (v / 256 % 256 ^ k) := by
      rw [Nat.pow_succ', Nat.mod_mul]
    have hb : (UInt8.ofNat v).toNat = v % 256 := UInt8.toNat_ofNat'
    rw [beBytes, bin2hex, List.flatMap_append, ← bin2hex, hexTs, List.foldl_append, ← hexTs,
      ih (by omega)]
    show shiftIn 8 (shiftIn 8 _ (hexAsc _)) (hexAsc _) = _
    rw [shiftIn_hexAsc (by omega), shiftIn_hexAsc (by omega), hb, hmod]
    omega

/-- A cookie comes back in any chunks: it is taken for what was sent until it expires. -/
theorem stickyVerify_issued (env : Env) (sticky : Sticky) (hlearn : sticky.learn = false)
    (issued : StickyVal) (hts : issued.ts < 2 ^ 64)
    (hhmac : env.stickyHmac issued.ts = some issued.hmac) (value : List (List UInt8))
    (hvalue : value.flatten = cookieText issued) (sv : StickyVal) :
    stickyVerify env sticky value sv =
      .ok (if env.jiffies .expiry ≤ expiresAt env sticky issued.ts then .success else .violate,
        issued) := by
  have hbytes : (bin2hex (beBytes 8 issued.ts)).length = 16 := by
    rw [length_bin2hex]
    rfl
  have hlen : value.flatten.length = stickyValSize * 2 := by
    rw [hvalue, cookieText, length_append, hbytes, length_bin2hex, length_toList]
    rfl
  have hread : hexTs (value.flatten.take 16) = issued.ts := by
    rw [hvalue, cookieText, take_left' hbytes, hexTs_beBytes (Nat.le_refl 8)]
    exact Nat.mod_eq_of_lt hts
  have hrest : value.flatten.drop 16 = bin2hex issued.hmac.toList := by
    rw [hvalue, cookieText, drop_left' hbytes]
  rw [stickyVerify_eq env hlearn value sv hlen]
  simp [passes, hread, hrest, hhmac]

theorem stickyVerify_issued_two_chunks :
    stickyVerify ⟨fun _ => 1000, 100, fun _ => some (replicate 20 7), fun _ _ => none⟩
        ⟨ofAscii "__tfw", false, true, 0, 0, 5⟩
        [(cookieText ⟨984, replicate 20 7⟩).take 9, (cookieText ⟨984, replicate 20 7⟩).drop 9]
        .zero = .ok (.success, ⟨984, replicate 20 7⟩) := by
  have h := stickyVerify_issued
    ⟨fun _ => 1000, 100, fun _ => some (replicate 20 7), fun _ _ => none⟩
    ⟨ofAscii "__tfw", false, true, 0, 0, 5⟩ rfl ⟨984, replicate 20 7⟩ (by decide) rfl
    [(cookieText ⟨984, replicate 20 7⟩).take 9, (cookieText ⟨984, replicate 20 7⟩).drop 9]
    (by simp) .zero
  exact h.trans (by rw [if_pos (by decide)])

end Tempesta.Sess
