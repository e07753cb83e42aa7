import Tempesta.Http.Date

/-!
The texts of HTTP dates and what `__parse_http_date` makes of them. A text of one of
the three formats may name a day or a month that does not exist; the parser is
compared with the calendar. It does not find out that the month is unknown before it
looks up the number of its days, takes day 0 for a day, and rejects the dates before
1970.
-/

namespace Tempesta.Http

open List ScanLib DateParser

/-- A text in the shape of an HTTP date -/
structure DateText where
  form : DateType
  weekday : List UInt8
  day : List UInt8
  mon : List UInt8
  year : List UInt8
  hour : List UInt8
  min : List UInt8
  sec : List UInt8
  gmt : List UInt8

namespace DateText

def time (t : DateText) : List UInt8 := t.hour ++ [0x3a] ++ t.min ++ [0x3a] ++ t.sec

/-- The name of the day and what separates it from the date -/
def lead (t : DateText) : List UInt8 :=
  match t.form with
  | .rfc822 | .rfc850 => t.weekday ++ [0x2c, 0x20]
  | .isoc => t.weekday ++ [0x20]

def body (t : DateText) : List UInt8 :=
  match t.form with
  | .rfc822 =>
    t.day ++ [0x20] ++ t.mon ++ [0x20] ++ t.year ++ [0x20] ++ t.time ++ [0x20]
  | .rfc850 =>
    t.day ++ [0x2d] ++ t.mon ++ [0x2d] ++ t.year ++ [0x20] ++ t.time ++ [0x20]
  | .isoc =>
    t.mon ++ [0x20] ++ t.day ++ [0x20] ++ t.time ++ [0x20] ++ t.year

/-- IMF-fixdate "Sun, 06 Nov 1994 08:49:37 GMT", RFC 850 date
"Sunday, 06-Nov-94 08:49:37 GMT", asctime date "Sun Nov  6 08:49:37 1994" -/
def text (t : DateText) : List UInt8 := t.lead ++ t.body ++ t.gmt

/-- `n` digits -/
def Digits (n : Nat) (bs : List UInt8) : Prop := bs.length = n ∧ ∀ c ∈ bs, isDigit c

/-- A capital letter and `n` small letters -/
def Name (n : Nat) (bs : List UInt8) : Prop :=
  ∃ a as, bs = a :: as ∧ isUpper a ∧ as.length = n ∧ ∀ c ∈ as, isLower c

/-- The date has the shape of its format. -/
structure Shaped (t : DateText) : Prop where
  day : match t.form with
    | .rfc822 | .rfc850 => Digits 2 t.day
    | .isoc => Digits 2 t.day ∨ ∃ d, isDigit d ∧ t.day = [0x20, d]
  mon : Name 2 t.mon
  year : match t.form with
    | .rfc822 | .isoc => Digits 4 t.year
    | .rfc850 => Digits 2 t.year
  hour : Digits 2 t.hour
  min : Digits 2 t.min
  sec : Digits 2 t.sec

/-- So have the name of the day and the time zone. -/
structure WellFormed (t : DateText) : Prop extends t.Shaped where
  weekday : match t.form with
    | .rfc822 | .isoc => Name 2 t.weekday
    | .rfc850 => ∃ n, 3 ≤ n ∧ Name n t.weekday
  gmt : match t.form with
    | .rfc822 | .rfc850 => t.gmt.map tfwLc = ofAscii "gmt"
    | .isoc => t.gmt = []

/-- The number of digits, where a space counts for nothing -/
def number (bs : List UInt8) : Nat := decimal 0 (bs.filter isDigit)

def monthNames : List (List UInt8) :=
  ["Jan", "Feb", "Mar", "Apr", "May", "Jun", "Jul", "Aug", "Sep", "Oct", "Nov", "Dec"].map ofAscii

/-- The month as `month_int` holds it -/
def monthInt : List UInt8 → Nat
  | [a, b, c] => tfwChar4Int 0x20 a b c
  | _ => 0

def month (t : DateText) : Option Nat := (monthNames.findIdx? (· == t.mon)).map (· + 1)

/-- A year of two digits is one of those from 1970 on. -/
def fullYear (y : Nat) : Nat := if y < 70 then y + 2000 else if y < 100 then y + 1900 else y

def yearNo (t : DateText) : Nat :=
  match t.form with
  | .rfc850 => fullYear (number t.year)
  | .rfc822 | .isoc => number t.year

def acc (t : DateText) : DateAcc :=
  ⟨number t.year, number t.day, number t.hour, number t.min, number t.sec, monthInt t.mon⟩

def TimeOk (t : DateText) : Prop :=
  number t.hour ≤ 23 ∧ number t.min ≤ 59 ∧ number t.sec ≤ 59

end DateText

def leapYear (y : Nat) : Prop := y % 4 = 0 ∧ (y % 100 ≠ 0 ∨ y % 400 = 0)

instance (y : Nat) : Decidable (leapYear y) := by
  unfold leapYear
  infer_instance

def daysInMonth (y m : Nat) : Nat :=
  if m = 2 then (if leapYear y then 29 else 28)
  else if m = 4 ∨ m = 6 ∨ m = 9 ∨ m = 11 then 30
  else 31

namespace DateText

def Valid (t : DateText) : Prop :=
  ∃ m, t.month = some m ∧ 1 ≤ number t.day ∧ number t.day ≤ daysInMonth t.yearNo m

end DateText

def EndsLine (nctl : UInt8 → Bool) (tail : List UInt8) : Prop :=
  ∃ c rest, tail.dropWhile nctl = c :: rest ∧ isCrlf c

variable {c : UInt8} {m y : Nat} {nctl : UInt8 → Bool} {a b : DateAcc}
  {bs bs' ls xs ys wd g l tail : List UInt8} {sts sts' : List DateState} {x z : UInt8}
  {n d h mi s pos : Nat} {r : DateStop} {p' q p : DateParser} {st : DateState} {f : DateType}

namespace DateParser

open DateText (Digits Name number monthInt fullYear monthNames)

/-- The characters `bs` read in the states `sts` of the template -/
def fill : List DateState → DateAcc → List UInt8 → Option DateAcc
  | [], a, [] => some a
  | st :: sts, a, c :: bs => (templChar st a c).bind (fill sts · bs)
  | _, _, _ => none

lemma fill_length (h : fill sts a bs = some b) : bs.length = sts.length := by
  induction sts generalizing a bs with
  | nil =>
    cases bs with
    | nil => rfl
    | cons c bs => cases h
  | cons st sts ih =>
    cases bs with
    | nil => cases h
    | cons c bs =>
      obtain ⟨a', -, h⟩ := Option.bind_eq_some_iff.mp h
      rw [length_cons, length_cons, ih h]

lemma fill_append (h : bs.length = sts.length) :
    fill (sts ++ sts') a (bs ++ bs') = (fill sts a bs).bind (fill sts' · bs') := by
  induction sts generalizing a bs with
  | nil =>
    rw [length_eq_zero_iff.mp h]
    rfl
  | cons st sts ih =>
    cases bs with
    | nil => cases h
    | cons c bs =>
      simp only [cons_append, fill, Option.bind_assoc]
      congr 1
      funext a'
      exact ih (Nat.succ.inj h)

lemma fill_append_iff :
    fill (sts ++ sts') a bs = some b ↔
      ∃ x y a', bs = x ++ y ∧ fill sts a x = some a' ∧ fill sts' a' y = some b := by
  constructor
  · intro h
    have hlen := fill_length h
    rw [length_append] at hlen
    rw [← take_append_drop sts.length bs, fill_append (by simp; omega)] at h
    obtain ⟨a', hx, hy⟩ := Option.bind_eq_some_iff.mp h
    exact ⟨_, _, a', (take_append_drop _ _).symm, hx, hy⟩
  · rintro ⟨x, y, a', rfl, hx, hy⟩
    rw [fill_append (fill_length hx), hx]
    exact hy

lemma fill_singleton_iff :
    fill [st] a bs = some b ↔ ∃ c, bs = [c] ∧ templChar st a c = some b := by
  constructor
  · intro h
    obtain ⟨c, rfl⟩ := length_eq_one_iff.mp (fill_length h)
    obtain ⟨a', hc, h⟩ := Option.bind_eq_some_iff.mp h
    cases h
    exact ⟨c, rfl, hc⟩
  · rintro ⟨c, rfl, hc⟩
    simp [fill, hc]

lemma fill_char_iff (hst : ∀ a c, templChar st a c = if c = x then some a else none) :
    fill [st] a bs = some b ↔ bs = [x] ∧ b = a := by
  rw [fill_singleton_iff]
  constructor
  · rintro ⟨c, rfl, hc⟩
    rw [hst] at hc
    split at hc
    · rename_i h
      cases hc
      exact ⟨by rw [h], rfl⟩
    · cases hc
  · rintro ⟨rfl, rfl⟩
    exact ⟨x, rfl, by rw [hst, if_pos rfl]⟩

def monthShift (m : Nat) (c : UInt8) : Nat := (c.toNat <<< 24 ||| m >>> 8) % 2 ^ 32

/-- A part of the template: the texts it reads and what becomes of them -/
structure TemplPart where
  sts : List DateState
  shape : List UInt8 → Prop
  set : DateAcc → List UInt8 → DateAcc
  fill_iff : ∀ {a b bs}, fill sts a bs = some b ↔ shape bs ∧ b = set a bs

namespace TemplPart

/-- States that read one character and keep nothing of it -/
def char (st : DateState) (x : UInt8)
    (hst : ∀ a c, templChar st a c = if c = x then some a else none) : TemplPart :=
  ⟨[st], (· = [x]), fun a _ => a, fill_char_iff hst⟩

lemma fill_digits_iff (get : DateAcc → Nat) (set : DateAcc → Nat → DateAcc)
    (hst : ∀ a c, templChar st a c =
      if isDigit c then some (set a (get a * 10 + (c.toNat - 48))) else none)
    (hget : ∀ a v, get (set a v) = v) (hset : ∀ a v w, set (set a v) w = set a w)
    (hself : ∀ a, set a (get a) = a) :
    fill (List.replicate n st) a bs = some b ↔
      Digits n bs ∧ b = set a (decimal (get a) (bs.filter isDigit)) := by
  induction n generalizing a bs with
  | zero =>
    unfold Digits
    cases bs with
    | nil =>
      rw [filter_nil, decimal_nil, hself]
      constructor
      · intro h
        cases h
        exact ⟨⟨rfl, nofun⟩, rfl⟩
      · rintro ⟨-, rfl⟩
        rfl
    | cons c bs => simp [fill]
  | succ n ih =>
    cases bs with
    | nil => simp [replicate_succ, fill, Digits]
    | cons c bs =>
      simp only [replicate_succ, fill, hst]
      by_cases hc : isDigit c
      · simp [hc, ih, Digits, hget, hset]
      · simp [hc, Digits]

/-- States that read a number of `n` digits into one place -/
def digits (st : DateState) (n : Nat) (get : DateAcc → Nat) (set : DateAcc → Nat → DateAcc)
    (hst : ∀ a c, templChar st a c =
      if isDigit c then some (set a (get a * 10 + (c.toNat - 48))) else none := by intros; rfl)
    (hget : ∀ a v, get (set a v) = v := by intros; rfl)
    (hset : ∀ a v w, set (set a v) w = set a w := by intros; rfl)
    (hself : ∀ a, set a (get a) = a := by intros; rfl) : TemplPart :=
  ⟨_, Digits n, fun a bs => set a (decimal (get a) (bs.filter isDigit)),
    fill_digits_iff get set hst hget hset hself⟩

def day : TemplPart := digits .day 2 DateAcc.day fun a v => { a with day := v }

def year (n : Nat) : TemplPart := digits .year n DateAcc.year fun a v => { a with year := v }

def hour : TemplPart := digits .hour 2 DateAcc.hour fun a v => { a with hour := v }

def min : TemplPart := digits .min 2 DateAcc.min fun a v => { a with min := v }

def sec : TemplPart := digits .sec 2 DateAcc.sec fun a v => { a with sec := v }

lemma fill_spaceOrDay_iff : fill [.spaceOrDay, .day] a bs = some b ↔
    (Digits 2 bs ∨ ∃ d, isDigit d ∧ bs = [0x20, d]) ∧
      b = { a with day := decimal a.day (bs.filter isDigit) } := by
  have hspace : isDigit 0x20 = false := by decide
  match bs with
  | [] => simp [fill, Digits]
  | [_] => simp [fill, Digits]
  | _ :: _ :: _ :: _ => simp [fill, Digits]
  | [c, d] =>
    simp only [fill, templChar]
    by_cases hc : c = 0x20
    · subst hc
      by_cases hd : isDigit d
      · simp [hd, hspace, Digits]
        exact eq_comm
      · simp [hd, hspace, Digits]
    · by_cases hcd : isDigit c
      · by_cases hd : isDigit d
        · simp [hc, hcd, hd, Digits]
          exact eq_comm
        · simp [hc, hcd, hd, Digits]
      · simp [hc, hcd, Digits]

lemma fill_month_iff : fill [.monthBeg, .month, .month] a bs = some b ↔
    Name 2 bs ∧ b = { a with monthInt := bs.foldl monthShift a.monthInt } := by
  match bs with
  | [] => simp [fill, Name]
  | [_] => simp [fill, Name]
  | [_, _] => simp [fill, Name]
  | _ :: _ :: _ :: _ :: _ => simp [fill, Name]
  | [x, y, z] =>
    simp only [fill, templChar]
    by_cases hux : isUpper x
    · by_cases hly : isLower y
      · by_cases hlz : isLower z
        · simp [hux, hly, hlz, Name, monthShift]
          exact eq_comm
        · simp [hux, hly, hlz, Name]
      · simp [hux, hly, Name]
    · simp [hux, Name]

def spaceOrDay : TemplPart := ⟨_, _, _, fill_spaceOrDay_iff⟩

def month : TemplPart := ⟨_, _, _, fill_month_iff⟩

def sp : TemplPart := char .sp 0x20 fun _ _ => rfl

def minus : TemplPart := char .minus 0x2d fun _ _ => rfl

def sc : TemplPart := char .sc 0x3a fun _ _ => rfl

end TemplPart

variable {ps : List TemplPart}

lemma fill_parts_iff : fill (ps.flatMap TemplPart.sts) a bs = some b ↔
    ∃ xs, List.Forall₂ TemplPart.shape ps xs ∧ bs = xs.flatten ∧
      b = (ps.zip xs).foldl (fun a px => px.1.set a px.2) a := by
  induction ps generalizing a bs with
  | nil =>
    constructor
    · intro h
      obtain rfl := length_eq_zero_iff.mp (fill_length h)
      cases h
      exact ⟨[], .nil, rfl, rfl⟩
    · rintro ⟨_, ⟨⟩, rfl, rfl⟩
      rfl
  | cons p ps ih =>
    rw [flatMap_cons, fill_append_iff]
    constructor
    · rintro ⟨x, y, a', rfl, hx, hy⟩
      obtain ⟨hshape, rfl⟩ := p.fill_iff.mp hx
      obtain ⟨xs, hxs, rfl, rfl⟩ := ih.mp hy
      exact ⟨x :: xs, .cons hshape hxs, rfl, rfl⟩
    · rintro ⟨_, hshape, rfl, rfl⟩
      obtain ⟨x, xs, hx, hxs, rfl⟩ := List.forall₂_cons_left_iff.mp hshape
      exact ⟨x, _, _, rfl, p.fill_iff.mpr ⟨hx, rfl⟩, ih.mpr ⟨xs, hxs, rfl, rfl⟩⟩

lemma shift_or_eq (hm : m < 2 ^ 32) :
    (c.toNat <<< 24 ||| m >>> 8) % 2 ^ 32 = c.toNat * 2 ^ 24 + m / 256 := by
  have hc := c.toNat_lt
  have hlow : m >>> 8 < 2 ^ 24 := by
    rw [Nat.shiftRight_eq_div_pow]
    omega
  rw [← Nat.shiftLeft_add_eq_or_of_lt hlow, Nat.shiftLeft_eq, Nat.shiftRight_eq_div_pow]
  omega

lemma tfwChar4Int_eq (a b d : UInt8) :
    tfwChar4Int a b c d =
      d.toNat * 2 ^ 24 + c.toNat * 2 ^ 16 + b.toNat * 2 ^ 8 + a.toNat := by
  have ha := a.toNat_lt
  have hb := b.toNat_lt
  have hc := c.toNat_lt
  unfold tfwChar4Int
  rw [Nat.or_assoc, Nat.or_assoc, ← Nat.shiftLeft_add_eq_or_of_lt (a := b.toNat) (i := 8)
    (by omega),
    ← Nat.shiftLeft_add_eq_or_of_lt (a := c.toNat) (i := 16) (by rw [Nat.shiftLeft_eq]; omega),
    ← Nat.shiftLeft_add_eq_or_of_lt (a := d.toNat) (i := 24)
      (by rw [Nat.shiftLeft_eq, Nat.shiftLeft_eq]; omega)]
  omega

lemma foldl_monthShift (h : Name 2 bs) : bs.foldl monthShift (0x20 <<< 24) = monthInt bs := by
  obtain ⟨x, as, rfl, -, has, -⟩ := h
  obtain ⟨y, z, rfl⟩ := length_eq_two.mp has
  have hx := x.toNat_lt
  have hy := y.toNat_lt
  show monthShift (monthShift (monthShift _ x) y) z = tfwChar4Int 0x20 x y z
  have h₁ : monthShift (0x20 <<< 24) x = x.toNat * 2 ^ 24 + 0x20 * 2 ^ 16 :=
    shift_or_eq (by decide)
  have h₂ : monthShift (x.toNat * 2 ^ 24 + 0x20 * 2 ^ 16) y =
      y.toNat * 2 ^ 24 + (x.toNat * 2 ^ 24 + 0x20 * 2 ^ 16) / 256 := shift_or_eq (by omega)
  rw [h₁, h₂, monthShift, shift_or_eq (by omega), tfwChar4Int_eq,
    show (0x20 : UInt8).toNat = 32 from rfl]
  omega

def timeSlots : List DateState := [.hour, .hour] ++ [.sc] ++ [.min, .min] ++ [.sc] ++ [.sec, .sec]

/-- The formats that begin with the day, without the time zone -/
def dayFirst (sep : DateState) (n : Nat) : List DateState :=
  [.day, .day] ++ [sep] ++ [.monthBeg, .month, .month] ++ [sep] ++ List.replicate n .year ++
    [.sp] ++ timeSlots ++ [.sp]

def accInit : DateAcc := ⟨0, 0, 0, 0, 0, 0x20 <<< 24⟩

def monthFirst : List DateState :=
  [.monthBeg, .month, .month] ++ [.sp] ++ [.spaceOrDay, .day] ++ [.sp] ++ timeSlots ++ [.sp] ++
    List.replicate 4 .year

/-- The states of the template that read one character -/
def slots : DateType → List DateState
  | .rfc822 => dayFirst .sp 4
  | .rfc850 => dayFirst .minus 2
  | .isoc => monthFirst

open TemplPart in
def parts : DateType → List TemplPart
  | .rfc822 => [day, sp, month, sp, year 4, sp, hour, sc, min, sc, sec, sp]
  | .rfc850 => [day, minus, month, minus, year 2, sp, hour, sc, min, sc, sec, sp]
  | .isoc => [month, sp, spaceOrDay, sp, hour, sc, min, sc, sec, sp, year 4]

lemma slots_eq (f : DateType) : slots f = (parts f).flatMap TemplPart.sts := by
  cases f <;> rfl

/-- The parts of a text as the template reads them -/
def pieces (t : DateText) : List (List UInt8) :=
  match t.form with
  | .rfc822 =>
    [t.day, [0x20], t.mon, [0x20], t.year, [0x20], t.hour, [0x3a], t.min, [0x3a], t.sec, [0x20]]
  | .rfc850 =>
    [t.day, [0x2d], t.mon, [0x2d], t.year, [0x20], t.hour, [0x3a], t.min, [0x3a], t.sec, [0x20]]
  | .isoc =>
    [t.mon, [0x20], t.day, [0x20], t.hour, [0x3a], t.min, [0x3a], t.sec, [0x20], t.year]

lemma body_eq (t : DateText) : t.body = (pieces t).flatten := by
  unfold DateText.body pieces DateText.time
  split <;> simp

lemma fill_slots_iff :
    fill (slots f) accInit bs = some b ↔
      ∃ t : DateText, t.form = f ∧ t.weekday = wd ∧ t.gmt = g ∧ t.Shaped ∧ bs = t.body ∧
        b = t.acc := by
  rw [slots_eq, fill_parts_iff]
  constructor
  · rintro ⟨xs, hxs, rfl, rfl⟩
    cases f with
    | rfc822 =>
      obtain _ | ⟨hd, _ | ⟨rfl, _ | ⟨hmo, _ | ⟨rfl, _ | ⟨hy, _ | ⟨rfl,
        _ | ⟨hh, _ | ⟨rfl, _ | ⟨hm, _ | ⟨rfl, _ | ⟨hs, _ | ⟨rfl, ⟨⟩⟩⟩⟩⟩⟩⟩⟩⟩⟩⟩⟩⟩ := hxs
      refine ⟨⟨.rfc822, wd, _, _, _, _, _, _, g⟩, rfl, rfl, rfl, ⟨hd, hmo, hy, hh, hm, hs⟩,
        by rw [body_eq]; rfl, ?_⟩
      rw [DateText.acc, ← foldl_monthShift hmo]
      rfl
    | rfc850 =>
      obtain _ | ⟨hd, _ | ⟨rfl, _ | ⟨hmo, _ | ⟨rfl, _ | ⟨hy, _ | ⟨rfl,
        _ | ⟨hh, _ | ⟨rfl, _ | ⟨hm, _ | ⟨rfl, _ | ⟨hs, _ | ⟨rfl, ⟨⟩⟩⟩⟩⟩⟩⟩⟩⟩⟩⟩⟩⟩ := hxs
      refine ⟨⟨.rfc850, wd, _, _, _, _, _, _, g⟩, rfl, rfl, rfl, ⟨hd, hmo, hy, hh, hm, hs⟩,
        by rw [body_eq]; rfl, ?_⟩
      rw [DateText.acc, ← foldl_monthShift hmo]
      rfl
    | isoc =>
      obtain _ | ⟨hmo, _ | ⟨rfl, _ | ⟨hd, _ | ⟨rfl,
        _ | ⟨hh, _ | ⟨rfl, _ | ⟨hm, _ | ⟨rfl, _ | ⟨hs, _ | ⟨rfl, _ | ⟨hy, ⟨⟩⟩⟩⟩⟩⟩⟩⟩⟩⟩⟩⟩ := hxs
      refine ⟨⟨.isoc, wd, _, _, _, _, _, _, g⟩, rfl, rfl, rfl, ⟨hd, hmo, hy, hh, hm, hs⟩,
        by rw [body_eq]; rfl, ?_⟩
      rw [DateText.acc, ← foldl_monthShift hmo]
      rfl
  · rintro ⟨t, rfl, -, -, ht, rfl, rfl⟩
    refine ⟨pieces t, ?_, body_eq t, ?_⟩
    · obtain ⟨hd, hmo, hy, hh, hm, hs⟩ := ht
      unfold pieces
      cases hf : t.form <;> rw [hf] at hd hy
      · exact .cons hd <| .cons rfl <| .cons hmo <| .cons rfl <| .cons hy <| .cons rfl <|
          .cons hh <| .cons rfl <| .cons hm <| .cons rfl <| .cons hs <| .cons rfl .nil
      · exact .cons hd <| .cons rfl <| .cons hmo <| .cons rfl <| .cons hy <| .cons rfl <|
          .cons hh <| .cons rfl <| .cons hm <| .cons rfl <| .cons hs <| .cons rfl .nil
      · exact .cons hmo <| .cons rfl <| .cons hd <| .cons rfl <| .cons hh <| .cons rfl <|
          .cons hm <| .cons rfl <| .cons hs <| .cons rfl <| .cons hy .nil
    · rw [DateText.acc, ← foldl_monthShift ht.mon]
      unfold pieces
      cases t.form <;> rfl

def slotsEnd : DateType → List DateState
  | .rfc822 | .rfc850 => [.gmt, .res]
  | .isoc => [.res]

lemma dateTempl_eq (f : DateType) : dateTempl f = slots f ++ slotsEnd f := by
  cases f <;> rfl

lemma slots_ne (h : st ∈ slots f) :
    st ∈ [DateState.sp, .minus, .sc, .spaceOrDay, .day, .monthBeg, .month, .year, .hour, .min,
      .sec] := by
  revert st
  cases f <;> decide

def atSlot (p : DateParser) (f : DateType) (pos : Nat) (a : DateAcc) : DateParser :=
  { p with acc := a, type := f, pos := pos, iSt := (dateTempl f).getD pos .res }

lemma byteStep_atSlot (hst : (dateTempl f).getD pos .res = st) (hmem : st ∈ slots f) (c : UInt8) :
    byteStep nctl (p.atSlot f pos a) c =
      match templChar st a c with
      | some a' => .inl (p.atSlot f (pos + 1) a')
      | none => .inr .neq := by
  have hmem := slots_ne hmem
  have hiSt : (p.atSlot f pos a).iSt = st := hst
  simp only [mem_cons, not_mem_nil, or_false] at hmem
  unfold DateParser.byteStep
  rw [hiSt]
  have hread : (p.atSlot f pos a).readChar c =
      (templChar st a c).map (p.atSlot f pos a).nextTempl := by
    unfold readChar
    rw [hiSt]
    rcases hmem with rfl | rfl | rfl | rfl | rfl | rfl | rfl | rfl | rfl | rfl | rfl <;> rfl
  rcases hmem with rfl | rfl | rfl | rfl | rfl | rfl | rfl | rfl | rfl | rfl | rfl
  all_goals
    rw [hread]
    cases templChar _ a c <;> rfl

lemma scan_atSlot (sts post : List DateState) (hpos : (slots f).drop pos = sts ++ post)
    (hlen : bs.length = sts.length) (l : List UInt8) :
    scan (byteStep nctl) (p.atSlot f pos a) (bs ++ l) =
      match fill sts a bs with
      | some a' => scan (byteStep nctl) (p.atSlot f (pos + sts.length) a') l
      | none => .inr .neq := by
  induction sts generalizing a bs pos with
  | nil =>
    rw [length_eq_zero_iff.mp hlen]
    rfl
  | cons st sts ih =>
    cases bs with
    | nil => cases hlen
    | cons c bs =>
      have hlt : pos < (slots f).length := by
        by_contra hge
        rw [drop_eq_nil_of_le (by omega)] at hpos
        cases hpos
      rw [drop_eq_getElem_cons hlt, cons_append] at hpos
      obtain ⟨hst, hrest⟩ := List.cons.inj hpos
      have hmem : st ∈ slots f := hst ▸ getElem_mem hlt
      have hget : (dateTempl f).getD pos .res = st := by
        rw [dateTempl_eq, getD_eq_getElem?_getD, getElem?_append_left hlt,
          getElem?_eq_getElem hlt, hst]
        rfl
      have hb := @byteStep_atSlot nctl a pos p st f hget hmem c
      cases hc : templChar st a c with
      | none =>
        rw [hc] at hb
        rw [cons_append, scan_stop hb]
        simp only [fill, hc, Option.bind_none]
      | some a' =>
        rw [hc] at hb
        rw [cons_append, scan_next hb, ih hrest (Nat.succ.inj hlen)]
        simp only [fill, hc, Option.bind_some, length_cons]
        rw [Nat.add_right_comm, Nat.add_assoc]

def atRes (p : DateParser) (f : DateType) (a : DateAcc) : DateParser :=
  { p with acc := a, type := f, pos := (slots f).length, iSt := .res, chunkLen := 0 }

lemma scan_readChar (h : scan (byteStep nctl) p l = .inr r) (hr : r ≠ .neq) (hst : p.ReadsChar) :
    ∃ c l' p', l = c :: l' ∧ p.readChar c = some p' ∧ scan (byteStep nctl) p' l' = .inr r := by
  cases l with
  | nil => cases h
  | cons c l =>
    have hb := @byteStep_readChar nctl p hst c
    cases hc : p.readChar c with
    | none =>
      rw [hc] at hb
      rw [scan_stop hb] at h
      cases h
      exact absurd rfl hr
    | some p' =>
      rw [hc] at hb
      rw [scan_next hb] at h
      exact ⟨c, l, p', rfl, hc, h⟩

lemma scan_of_readChar (hst : p.ReadsChar) (hc : p.readChar c = some p') :
    scan (byteStep nctl) p (c :: l) = scan (byteStep nctl) p' l := by
  have hb := @byteStep_readChar nctl p hst c
  rw [hc] at hb
  exact scan_next hb

lemma atSlot_gmt (hf : slotsEnd f = [.gmt, .res]) :
    (p.atSlot f (slots f).length a).iSt = .gmt ∧
      (dateTempl f).getD ((slots f).length + 1) .res = .res := by
  simp only [atSlot, dateTempl_eq, hf]
  simp

lemma scan_gmtChars (hp : p.chunkLen = 0) (hf : slotsEnd f = [.gmt, .res])
    (hg : g.map tfwLc = ofAscii "gmt") :
    scan (byteStep nctl) (p.atSlot f (slots f).length a) (g ++ l) =
      scan (byteStep nctl) (p.atRes f a) l := by
  have hst := @atSlot_gmt a p f hf
  have hlen : g.length = 3 := by
    have := congrArg List.length hg
    rw [length_map] at this
    exact this
  have hne : g ++ l ≠ [] := by
    intro h
    rw [append_eq_nil_iff.mp h |>.1] at hlen
    cases hlen
  have htry : tryStr (ofAscii "gmt") 0 (g ++ l) = .full 3 := by
    refine (tryStr_zero_eq_full_iff (by decide)).mpr ⟨rfl, ?_⟩
    rw [← hlen, take_left, hg]
  rw [scan_gmt hst.1 (.of_zero hp) hne]
  have hchunk : (p.atSlot f (slots f).length a).chunkLen = 0 := hp
  rw [hchunk, htry]
  dsimp only
  rw [← hlen, drop_left]
  simp only [DateParser.st, atSlot, atRes, hst.2]

lemma scan_gmtChars_inv (hp : p.chunkLen = 0) (hf : slotsEnd f = [.gmt, .res])
    (h : scan (byteStep nctl) (p.atSlot f (slots f).length a) l = .inr r) (hr : r ≠ .neq) :
    ∃ g l', l = g ++ l' ∧ g.map tfwLc = ofAscii "gmt" ∧
      scan (byteStep nctl) (p.atRes f a) l' = .inr r := by
  have hst := @atSlot_gmt a p f hf
  have hne : l ≠ [] := by
    rintro rfl
    cases h
  have hchunk : (p.atSlot f (slots f).length a).chunkLen = 0 := hp
  have hscan := h
  rw [scan_gmt hst.1 (.of_zero hp) hne, hchunk] at hscan
  cases htry : tryStr (ofAscii "gmt") 0 l with
  | neq =>
    rw [htry] at hscan
    cases hscan
    exact absurd rfl hr
  | part n =>
    rw [htry] at hscan
    cases hscan
  | full n =>
    obtain ⟨-, hg⟩ := (tryStr_zero_eq_full_iff (by decide)).mp htry
    refine ⟨l.take n, l.drop n, (take_append_drop n l).symm, hg, ?_⟩
    rw [← take_append_drop n l, scan_gmtChars hp hf hg] at h
    exact h

def atFourth (p : DateParser) : DateParser := { p with iSt := .wDate4 }

def atFifth (p : DateParser) : DateParser :=
  { p with iSt := .wDate5, acc := accInit, type := .rfc850, pos := 0 }

def atComma (p : DateParser) (f : DateType) : DateParser :=
  { p with iSt := .wDaySP, acc := accInit, type := f, pos := 0 }

lemma scan_threeLetters (hp : p.iSt = .wDate1) {y : UInt8} (hx : isUpper x) (hy : isLower y)
    (hz : isLower z) :
    scan (byteStep nctl) p (x :: y :: z :: l) = scan (byteStep nctl) p.atFourth l := by
  have h₁ : p.readChar x = some { p with iSt := .wDate2 } := by simp [readChar, hp, hx]
  have h₂ : { p with iSt := .wDate2 : DateParser }.readChar y = some { p with iSt := .wDate3 } := by
    simp [readChar, hy]
  have h₃ : { p with iSt := .wDate3 : DateParser }.readChar z = some p.atFourth := by
    simp [readChar, hz, atFourth]
  rw [scan_of_readChar (by simp [ReadsChar, hp]) h₁, scan_of_readChar (by simp [ReadsChar]) h₂,
    scan_of_readChar (by simp [ReadsChar]) h₃]

lemma scan_threeLetters_inv (hp : p.iSt = .wDate1) (h : scan (byteStep nctl) p l = .inr r)
    (hr : r ≠ .neq) :
    ∃ x y z l', l = x :: y :: z :: l' ∧ isUpper x ∧ isLower y ∧ isLower z ∧
      scan (byteStep nctl) p.atFourth l' = .inr r := by
  obtain ⟨x, l₁, p₁, rfl, h₁, hscan⟩ := scan_readChar h hr (by simp [ReadsChar, hp])
  rw [readChar, hp] at h₁
  obtain ⟨hx, rfl⟩ : isUpper x = true ∧ { p with iSt := .wDate2 } = p₁ := by simpa using h₁
  obtain ⟨y, l₂, p₂, rfl, h₂, hscan⟩ := scan_readChar hscan hr (by simp [ReadsChar])
  obtain ⟨hy, rfl⟩ : isLower y = true ∧ { p with iSt := .wDate3 } = p₂ := by
    simpa [readChar] using h₂
  obtain ⟨z, l₃, p₃, rfl, h₃, hscan⟩ := scan_readChar hscan hr (by simp [ReadsChar])
  obtain ⟨hz, rfl⟩ : isLower z = true ∧ p.atFourth = p₃ := by
    simpa [readChar, atFourth] using h₃
  exact ⟨x, y, z, l₃, rfl, hx, hy, hz, hscan⟩

lemma readChar_atFourth :
    p.atFourth.readChar c =
      if c = 0x2c then some (p.atComma .rfc822)
      else if isLower c then some p.atFifth
      else if c = 0x20 then some (p.atSlot .isoc 0 accInit)
      else none := rfl

lemma readChar_atFifth :
    p.atFifth.readChar c =
      if isLower c then some p.atFifth
      else if c = 0x2c then some (p.atComma .rfc850)
      else none := rfl

lemma readChar_atComma (f : DateType) :
    (p.atComma f).readChar c = if c = 0x20 then some (p.atSlot f 0 accInit) else none := rfl

lemma scan_atComma (f : DateType) :
    scan (byteStep nctl) (p.atComma f) (0x20 :: l) =
      scan (byteStep nctl) (p.atSlot f 0 accInit) l :=
  scan_of_readChar (by simp [ReadsChar, atComma]) (by rw [readChar_atComma, if_pos rfl])

lemma scan_atComma_inv (h : scan (byteStep nctl) (p.atComma f) l = .inr r) (hr : r ≠ .neq) :
    ∃ l', l = 0x20 :: l' ∧ scan (byteStep nctl) (p.atSlot f 0 accInit) l' = .inr r := by
  obtain ⟨c, l', p', rfl, hc, hscan⟩ := scan_readChar h hr (by simp [ReadsChar, atComma])
  rw [readChar_atComma] at hc
  split at hc
  · rename_i hsp
    cases hc
    exact ⟨l', by rw [hsp], hscan⟩
  · cases hc

lemma scan_atFifth (hls : ∀ c ∈ ls, isLower c) :
    scan (byteStep nctl) p.atFifth (ls ++ 0x2c :: 0x20 :: l) =
      scan (byteStep nctl) (p.atSlot .rfc850 0 accInit) l := by
  induction ls with
  | nil =>
    rw [nil_append, scan_of_readChar (by simp [ReadsChar, atFifth])
      (by rw [readChar_atFifth, if_neg (by decide), if_pos rfl]), scan_atComma]
  | cons c ls ih =>
    obtain ⟨hc, hls⟩ := forall_mem_cons.mp hls
    rw [cons_append, scan_of_readChar (by simp [ReadsChar, atFifth])
      (by rw [readChar_atFifth, if_pos hc]), ih hls]

lemma scan_atFifth_inv (h : scan (byteStep nctl) p.atFifth l = .inr r) (hr : r ≠ .neq) :
    ∃ ls l', l = ls ++ 0x2c :: 0x20 :: l' ∧ (∀ c ∈ ls, isLower c) ∧
      scan (byteStep nctl) (p.atSlot .rfc850 0 accInit) l' = .inr r := by
  induction l with
  | nil => cases h
  | cons c l ih =>
    obtain ⟨c', l', p', heq, hc, hscan⟩ := scan_readChar h hr (by simp [ReadsChar, atFifth])
    cases heq
    rw [readChar_atFifth] at hc
    split_ifs at hc with hlow hcomma
    · cases hc
      obtain ⟨ls, l', rfl, hls, hscan⟩ := ih hscan
      exact ⟨c :: ls, l', rfl, forall_mem_cons.mpr ⟨hlow, hls⟩, hscan⟩
    · cases hc
      obtain ⟨l', rfl, hscan⟩ := scan_atComma_inv hscan hr
      exact ⟨[], l', by rw [hcomma]; rfl, nofun, hscan⟩

variable {t : DateText}

lemma scan_body (ht : t.Shaped) :
    scan (byteStep nctl) (p.atSlot t.form 0 accInit) (t.body ++ l) =
      scan (byteStep nctl) (p.atSlot t.form (slots t.form).length t.acc) l := by
  have hfill : fill (slots t.form) accInit t.body = some t.acc :=
    (@fill_slots_iff _ _ t.weekday t.gmt _).mpr ⟨t, rfl, rfl, rfl, ht, rfl, rfl⟩
  rw [scan_atSlot (slots t.form) [] (by simp) (fill_length hfill), hfill,
    Nat.zero_add]

lemma scan_body_inv (h : scan (byteStep nctl) (p.atSlot f 0 accInit) l = .inr r) (hr : r ≠ .neq) :
    ∃ bs l' a, l = bs ++ l' ∧ fill (slots f) accInit bs = some a ∧
      scan (byteStep nctl) (p.atSlot f (slots f).length a) l' = .inr r := by
  by_cases hlen : (slots f).length ≤ l.length
  · rw [← take_append_drop (slots f).length l,
      scan_atSlot (slots f) [] (by simp) (by simp [hlen])] at h
    cases hfill : fill (slots f) accInit (l.take (slots f).length) with
    | none =>
      rw [hfill] at h
      cases h
      exact absurd rfl hr
    | some a =>
      rw [hfill, Nat.zero_add] at h
      exact ⟨_, _, a, (take_append_drop _ _).symm, hfill, h⟩
  · rw [← append_nil l, scan_atSlot ((slots f).take l.length) ((slots f).drop l.length)
      (by simp) (by simp; omega)] at h
    cases hfill : fill ((slots f).take l.length) accInit l with
    | none =>
      rw [hfill] at h
      cases h
      exact absurd rfl hr
    | some a =>
      rw [hfill] at h
      cases h

lemma atSlot_isoc (hc : p.chunkLen = 0) :
    p.atSlot .isoc (slots .isoc).length a = p.atRes .isoc a := by
  unfold atSlot atRes
  rw [← hc]
  rfl

lemma scan_text (ht : t.WellFormed) (hp : p.iSt = .wDate1) (hc : p.chunkLen = 0) :
    scan (byteStep nctl) p (t.text ++ l) = scan (byteStep nctl) (p.atRes t.form t.acc) l := by
  have hbody := fun l => @scan_body nctl l p t ht.toShaped
  have hwd := ht.weekday
  have hgmt := ht.gmt
  obtain ⟨f, wd, d, mo, y, h, m, s, g⟩ := t
  unfold DateText.text
  rw [append_assoc, append_assoc]
  cases f with
  | rfc822 =>
    obtain ⟨x, as, rfl, hx, has, hlow⟩ := hwd
    obtain ⟨y', z, rfl⟩ := length_eq_two.mp has
    have hy := hlow y' (by simp)
    have hz := hlow z (by simp)
    refine (scan_threeLetters hp hx hy hz).trans ?_
    refine (scan_of_readChar (by simp [ReadsChar, atFourth])
      (by rw [readChar_atFourth, if_pos rfl])).trans ?_
    refine (scan_atComma _).trans ?_
    exact (hbody _).trans (scan_gmtChars hc rfl hgmt)
  | rfc850 =>
    obtain ⟨n, hn, x, as, rfl, hx, has, hlow⟩ := hwd
    match as, has, hlow with
    | y' :: z :: c :: as, has, hlow =>
      have hy := hlow y' (by simp)
      have hz := hlow z (by simp)
      have hcl := hlow c (by simp)
      have hne : c ≠ 0x2c := by
        rintro rfl
        cases hcl
      refine (scan_threeLetters hp hx hy hz).trans ?_
      refine (scan_of_readChar (by simp [ReadsChar, atFourth])
        (by rw [readChar_atFourth, if_neg hne, if_pos hcl])).trans ?_
      show scan (byteStep nctl) p.atFifth ((as ++ [0x2c, 0x20]) ++ _) = _
      rw [append_assoc]
      refine (scan_atFifth fun c hc => hlow c (by simp [hc])).trans ?_
      exact (hbody _).trans (scan_gmtChars hc rfl hgmt)
    | [], has, _ => rw [length_nil] at has; omega
    | [_], has, _ => rw [length_singleton] at has; omega
    | [_, _], has, _ => rw [length_cons, length_singleton] at has; omega
  | isoc =>
    obtain ⟨x, as, rfl, hx, has, hlow⟩ := hwd
    obtain ⟨y', z, rfl⟩ := length_eq_two.mp has
    have hy := hlow y' (by simp)
    have hz := hlow z (by simp)
    cases hgmt
    refine (scan_threeLetters hp hx hy hz).trans ?_
    refine (scan_of_readChar (by simp [ReadsChar, atFourth])
      (by rw [readChar_atFourth, if_neg (by decide), if_neg (by decide), if_pos rfl])).trans ?_
    rw [← atSlot_isoc hc]
    exact hbody _

lemma scan_text_inv (hp : p.iSt = .wDate1) (hc : p.chunkLen = 0)
    (h : scan (byteStep nctl) p l = .inr r) (hr : r ≠ .neq) :
    ∃ (t : DateText) (l' : List UInt8), t.WellFormed ∧ l = t.text ++ l' ∧
      scan (byteStep nctl) (p.atRes t.form t.acc) l' = .inr r := by
  obtain ⟨x, y, z, l₁, rfl, hx, hy, hz, h₁⟩ := scan_threeLetters_inv hp h hr
  have hname : Name 2 [x, y, z] := ⟨x, [y, z], rfl, hx, rfl, by simp [hy, hz]⟩
  obtain ⟨c, l₂, p', rfl, hcr, h₂⟩ := scan_readChar h₁ hr (by simp [ReadsChar, atFourth])
  rw [readChar_atFourth] at hcr
  split_ifs at hcr with hcomma hlow hsp
  · cases Option.some.inj hcr
    obtain ⟨l₃, rfl, h₃⟩ := scan_atComma_inv h₂ hr
    obtain ⟨bs, l₄, a, rfl, hfill, h₄⟩ := scan_body_inv h₃ hr
    obtain ⟨g, l₅, rfl, hg, h₅⟩ := scan_gmtChars_inv hc rfl h₄ hr
    obtain ⟨t, hf, hwd, hgt, hshape, rfl, rfl⟩ := (@fill_slots_iff _ _ [x, y, z] g _).mp hfill
    refine ⟨t, l₅, ⟨hshape, ?_, ?_⟩, ?_, by rw [hf]; exact h₅⟩
    · rw [hf, hwd]
      exact hname
    · rw [hf, hgt]
      exact hg
    · simp [DateText.text, DateText.lead, hf, hwd, hgt, hcomma]
  · cases Option.some.inj hcr
    obtain ⟨ls, l₃, rfl, hls, h₃⟩ := scan_atFifth_inv h₂ hr
    obtain ⟨bs, l₄, a, rfl, hfill, h₄⟩ := scan_body_inv h₃ hr
    obtain ⟨g, l₅, rfl, hg, h₅⟩ := scan_gmtChars_inv hc rfl h₄ hr
    obtain ⟨t, hf, hwd, hgt, hshape, rfl, rfl⟩ :=
      (@fill_slots_iff _ _ (x :: y :: z :: c :: ls) g _).mp hfill
    refine ⟨t, l₅, ⟨hshape, ?_, ?_⟩, ?_, by rw [hf]; exact h₅⟩
    · rw [hf, hwd]
      exact ⟨ls.length + 3, by omega, x, y :: z :: c :: ls, rfl, hx, rfl,
        by simpa [hy, hz, hlow] using hls⟩
    · rw [hf, hgt]
      exact hg
    · simp [DateText.text, DateText.lead, hf, hwd, hgt]
  · cases Option.some.inj hcr
    obtain ⟨bs, l₄, a, rfl, hfill, h₄⟩ := scan_body_inv h₂ hr
    obtain ⟨t, hf, hwd, hgt, hshape, rfl, rfl⟩ := (@fill_slots_iff _ _ [x, y, z] [] _).mp hfill
    rw [atSlot_isoc hc] at h₄
    refine ⟨t, l₄, ⟨hshape, ?_, ?_⟩, ?_, by rw [hf]; exact h₄⟩
    · rw [hf, hwd]
      exact hname
    · rw [hf, hgt]
    · simp [DateText.text, DateText.lead, hf, hwd, hgt, hsp]

theorem monthInt_inj (hx : xs.length = 3) (hy : ys.length = 3) (h : monthInt xs = monthInt ys) :
    xs = ys := by
  obtain ⟨a, b, c, rfl⟩ := length_eq_three.mp hx
  obtain ⟨a', b', c', rfl⟩ := length_eq_three.mp hy
  simp only [monthInt, tfwChar4Int_eq] at h
  have := a.toNat_lt
  have := b.toNat_lt
  have := a'.toNat_lt
  have := b'.toNat_lt
  have ha : a.toNat = a'.toNat := by omega
  have hb : b.toNat = b'.toNat := by omega
  have hc : c.toNat = c'.toNat := by omega
  rw [UInt8.toNat_inj.mp ha, UInt8.toNat_inj.mp hb, UInt8.toNat_inj.mp hc]

lemma findIdx?_eq_of_forall {α : Type} {p q : α → Bool} {l : List α} (h : ∀ x ∈ l, p x = q x) :
    l.findIdx? p = l.findIdx? q := by
  induction l with
  | nil => rfl
  | cons x l ih =>
    obtain ⟨hx, hl⟩ := forall_mem_cons.mp h
    rw [findIdx?_cons, findIdx?_cons, hx, ih hl]

lemma parseMonth_monthInt (hmon : t.mon.length = 3) :
    parseMonth (monthInt t.mon) =
      match t.month with
      | some m => (m : Int)
      | none => cstrNeq := by
  have hmonths : dateMonths = monthNames.map monthInt := rfl
  have hlen : ∀ n ∈ monthNames, n.length = 3 := by decide
  have hfind : dateMonths.findIdx? (· == monthInt t.mon) =
      monthNames.findIdx? (· == t.mon) := by
    rw [hmonths, findIdx?_map]
    apply findIdx?_eq_of_forall
    intro n hn
    rw [Function.comp_apply, Bool.eq_iff_iff, beq_iff_eq, beq_iff_eq]
    exact ⟨monthInt_inj (hlen n hn) hmon, fun h => by rw [h]⟩
  unfold parseMonth DateText.month
  rw [hfind]
  cases monthNames.findIdx? (· == t.mon) <;> rfl

lemma month_bounds (h : t.month = some m) : 1 ≤ m ∧ m ≤ 12 := by
  obtain ⟨i, hi, rfl⟩ := Option.map_eq_some_iff.mp h
  obtain ⟨hlt, -⟩ := findIdx?_eq_some_iff_getElem.mp hi
  have : monthNames.length = 12 := rfl
  omega

lemma checkDate_eq (hm : 1 ≤ m ∧ m ≤ 12) (ht : h ≤ 23 ∧ mi ≤ 59 ∧ s ≤ 59) :
    checkDate y m d h mi s = some (decide (d ≤ daysInMonth y m)) := by
  obtain ⟨h1, h12⟩ := hm
  unfold checkDate
  rw [if_neg (by omega)]
  by_cases hfeb : m = 2
  · subst hfeb
    by_cases hd : d = 29
    · subst hd
      simp only [daysInMonth, leapYear]
      by_cases hl : y % 4 = 0 ∧ (y % 100 ≠ 0 ∨ y % 400 = 0)
      · simp [hl]
      · have hnot : y % 4 ≠ 0 ∨ y % 100 = 0 ∧ y % 400 ≠ 0 := by omega
        simp [hl, hnot]
    · have hdays : daysInMonth y 2 = 28 ∨ daysInMonth y 2 = 29 := by
        unfold daysInMonth
        rw [if_pos rfl]
        split <;> simp
      rw [if_neg (by omega)]
      show some (!decide (d > 28)) = some (decide (d ≤ daysInMonth y 2))
      rw [Option.some.injEq, Bool.eq_iff_iff]
      simp only [Bool.not_eq_true', decide_eq_false_iff_not, decide_eq_true_eq]
      omega
  · rw [if_neg (by omega)]
    interval_cases m
    all_goals
      first
      | exact absurd rfl hfeb
      | show some (!decide (d > _)) = some (decide (d ≤ _))
        rw [Option.some.injEq, Bool.eq_iff_iff]
        simp [daysInMonth]

lemma yearDays_mono : Monotone yearDays := by
  apply monotone_nat_of_le_succ
  intro y
  unfold yearDays
  omega

lemma yearDays_lt_iff : yearDays y < 2 ^ 32 ↔ y ≤ 11759221 := by
  constructor
  · intro hlt
    by_contra hgt
    have hle := @yearDays_mono 11759222 y (by omega)
    norm_num [yearDays] at hle hlt
    omega
  · intro hle
    exact (yearDays_mono hle).trans_lt (by norm_num [yearDays])

lemma yearDays_succ : yearDays (y + 1) = yearDays y + 337 + daysInMonth (y + 1) 2 := by
  have hle : y / 100 ≤ y / 4 := Nat.div_le_div_left (by decide) (by decide)
  rw [yearDays, yearDays, daysInMonth, if_pos rfl, Nat.succ_div, Nat.succ_div, Nat.succ_div]
  generalize y / 100 = c, y / 4 = q, y / 400 = p at hle ⊢
  simp only [leapYear, ← Nat.dvd_iff_mod_eq_zero]
  split_ifs <;> omega

lemma marchDays_eq (hm : 1 ≤ m ∧ m ≤ 12) (hd : d ≤ 31) :
    (m = 3 ∧ d = 0 ∧ marchDays m d = 2 ^ 32 - 1) ∨
      marchDays m d + 1 = [306, 337, 0, 31, 61, 92, 122, 153, 184, 214, 245, 275].getD
        (m - 1) 0 + d := by
  obtain ⟨h1, h12⟩ := hm
  unfold marchDays
  by_cases hzero : m = 3 ∧ d = 0
  · obtain ⟨rfl, rfl⟩ := hzero
    exact .inl ⟨rfl, rfl, rfl⟩
  · right
    interval_cases m
    all_goals
      simp only [getD_cons_zero, getD_cons_succ, Nat.reduceSub, Nat.reduceGT, if_true,
        if_false]
      omega

lemma daysInMonth_bounds : 28 ≤ daysInMonth y m ∧ daysInMonth y m ≤ 31 := by
  unfold daysInMonth
  split_ifs <;> omega

lemma dateSecs_valid (hm : 1 ≤ m ∧ m ≤ 12) (ht : h ≤ 23 ∧ mi ≤ 59 ∧ s ≤ 59)
    (hd : d ≤ daysInMonth y m) :
    d ≤ 31 ∧ dateSecs y m d h mi s =
      some (((marchDays m d + yearDays (if m ≤ 2 then y - 1 else y) % 2 ^ 32 : Nat) - epochDays +
        31 + 28) * 86400 + h * 3600 + mi * 60 + s) := by
  refine ⟨hd.trans daysInMonth_bounds.2, ?_⟩
  rw [dateSecs, checkDate_eq hm ht, decide_eq_true hd]
  simp only [Option.map_some, Bool.not_true, Bool.false_eq_true, if_false]

lemma dateSecs_eq (hm : 1 ≤ m ∧ m ≤ 12) (ht : h ≤ 23 ∧ mi ≤ 59 ∧ s ≤ 59) (hd : d ≤ daysInMonth y m)
    (hy : y ≤ 11759221) :
    ∃ secs, dateSecs y m d h mi s = some secs ∧
      (0 ≤ secs ↔ if d = 0 then m = 3 ∨ 1970 < y ∨ (y = 1970 ∧ 2 ≤ m) else 1970 ≤ y) := by
  obtain ⟨hd31, hsecs⟩ := dateSecs_valid hm ht hd
  refine ⟨_, hsecs, ?_⟩
  rw [Nat.mod_eq_of_lt (yearDays_lt_iff.mpr (by split <;> omega))]
  have hle : ∀ z, (z ≤ 1968 → yearDays z ≤ 718797) ∧ (z ≤ 1969 → yearDays z ≤ 719162) ∧
      (1969 ≤ z → 719162 ≤ yearDays z) ∧ (1970 ≤ z → 719527 ≤ yearDays z) := by
    intro z
    have h68 : yearDays 1968 = 718797 := by norm_num [yearDays]
    have h69 : yearDays 1969 = 719162 := by norm_num [yearDays]
    have h70 : yearDays 1970 = 719527 := by norm_num [yearDays]
    rw [← h68, ← h69, ← h70]
    exact ⟨fun hz => yearDays_mono hz, fun hz => yearDays_mono hz, fun hz => yearDays_mono hz,
      fun hz => yearDays_mono hz⟩
  have hdays := marchDays_eq hm hd31
  have hyear := hle (if m ≤ 2 then y - 1 else y)
  have hepoch : epochDays = 719527 := rfl
  generalize marchDays m d = md at hdays ⊢
  generalize yearDays (if m ≤ 2 then y - 1 else y) = yd at hyear ⊢
  rw [hepoch]
  obtain ⟨h1, h12⟩ := hm
  interval_cases m
  all_goals
    simp only [getD_cons_zero, getD_cons_succ, Nat.reduceSub] at hdays
    simp only [Nat.reduceLeDiff, if_true, if_false] at hyear
    split_ifs <;> omega

/-- The days from 1970-01-01 to a day, counted one by one -/
inductive DayCount : Nat → Nat → Nat → Nat → Prop where
  | epoch : DayCount 1970 1 1 0
  | day {y m d n : Nat} : DayCount y m d n → d < daysInMonth y m → DayCount y m (d + 1) (n + 1)
  | month {y m n : Nat} :
    DayCount y m (daysInMonth y m) n → m < 12 → DayCount y (m + 1) 1 (n + 1)
  | year {y n : Nat} : DayCount y 12 31 n → DayCount (y + 1) 1 1 (n + 1)

namespace DayCount

lemma exists_day (hc : ∃ n, DayCount y m 1 n) (hd : 1 ≤ d) (hle : d ≤ daysInMonth y m) :
    ∃ n, DayCount y m d n := by
  induction d, hd using Nat.le_induction with
  | base => exact hc
  | succ d hd ih =>
    obtain ⟨n, hn⟩ := ih (by omega)
    exact ⟨_, hn.day hle⟩

lemma exists_month (hc : ∃ n, DayCount y 1 1 n) (hm : 1 ≤ m) (hle : m ≤ 12) :
    ∃ n, DayCount y m 1 n := by
  induction m, hm using Nat.le_induction with
  | base => exact hc
  | succ m hm ih =>
    have hdays := @daysInMonth_bounds m y
    obtain ⟨n, hn⟩ := exists_day (ih (by omega)) (by omega) le_rfl
    exact ⟨_, hn.month (by omega)⟩

lemma exists_year (hy : 1970 ≤ y) : ∃ n, DayCount y 1 1 n := by
  induction y, hy using Nat.le_induction with
  | base => exact ⟨0, .epoch⟩
  | succ y hy ih =>
    obtain ⟨n, hn⟩ := exists_day (exists_month ih (by omega) le_rfl) (by omega) (d := 31) le_rfl
    exact ⟨_, hn.year⟩

/-- The days since March 1 and those of the years before count each day once. -/
lemma closed (hc : DayCount y m d n) : 1970 ≤ y ∧ 1 ≤ m ∧ m ≤ 12 ∧ 1 ≤ d ∧
    marchDays m d + yearDays (if m ≤ 2 then y - 1 else y) = n + 719468 := by
  induction hc with
  | epoch => exact ⟨le_rfl, by norm_num [marchDays, yearDays]⟩
  | @day y m d n hc hlt ih =>
    obtain ⟨hy, h1, h12, hd, heq⟩ := ih
    have hdays := @daysInMonth_bounds m y
    have hold := @marchDays_eq m d ⟨h1, h12⟩ (by omega)
    have hnew := @marchDays_eq m (d + 1) ⟨h1, h12⟩ (by omega)
    refine ⟨hy, h1, h12, by omega, ?_⟩
    omega
  | @month y m n hc hlt ih =>
    obtain ⟨hy, h1, h12, hd, heq⟩ := ih
    have hold := @marchDays_eq m _ ⟨h1, h12⟩ (@daysInMonth_bounds m y).2
    have hnew := @marchDays_eq (m + 1) 1 ⟨by omega, hlt⟩ (by omega)
    have hleap := @yearDays_succ (y - 1)
    rw [Nat.sub_add_cancel (by omega : 1 ≤ y)] at hleap
    refine ⟨hy, by omega, by omega, le_rfl, ?_⟩
    clear hc hd h12
    interval_cases m
    all_goals
      simp [daysInMonth] at hold hnew heq hleap ⊢
      omega
  | @year y n hc ih =>
    obtain ⟨hy, -, -, -, heq⟩ := ih
    refine ⟨by omega, by omega, by omega, le_rfl, ?_⟩
    simp [marchDays] at heq ⊢
    omega

lemma secs (hn : DayCount y m d n) (hd : d ≤ daysInMonth y m) (ht : h ≤ 23 ∧ mi ≤ 59 ∧ s ≤ 59) :
    dateSecs y m d h mi s = some ((n * 86400 + h * 3600 + mi * 60 + s : Nat) : Int) ↔
      (if m ≤ 2 then y - 1 else y) ≤ 11759221 := by
  obtain ⟨-, h1, h12, -, hclosed⟩ := hn.closed
  have hepoch : epochDays = 719527 := rfl
  rw [(dateSecs_valid ⟨h1, h12⟩ ht hd).2, Option.some.injEq, hepoch, ← yearDays_lt_iff]
  omega

theorem dateSecs_iff (hm : 1 ≤ m ∧ m ≤ 12) (hd : 1 ≤ d ∧ d ≤ daysInMonth y m) (hy : 1970 ≤ y)
    (ht : h ≤ 23 ∧ mi ≤ 59 ∧ s ≤ 59) :
    (∃ n, DayCount y m d n) ∧ ∀ n, DayCount y m d n →
      (dateSecs y m d h mi s = some ((n * 86400 + h * 3600 + mi * 60 + s : Nat) : Int) ↔
        (if m ≤ 2 then y - 1 else y) ≤ 11759221) :=
  ⟨exists_day (exists_month (exists_year hy) hm.1 hm.2) hd.1 hd.2, fun _ hn => hn.secs hd.2 ht⟩

theorem dateSecs_iff_leap_day :
    (∃ n, DayCount 2000 2 29 n) ∧ ∀ n, DayCount 2000 2 29 n →
      (dateSecs 2000 2 29 23 59 59 = some ((n * 86400 + 23 * 3600 + 59 * 60 + 59 : Nat) : Int) ↔
        1999 ≤ 11759221) :=
  dateSecs_iff (by decide) (by decide) (by decide) (by decide)

/-- The days of so many years do not fit in an `unsigned int`. -/
theorem dateSecs_wraps :
    ∃ n, DayCount 12000000 3 1 n ∧
      dateSecs 12000000 3 1 0 0 0 ≠ some ((n * 86400 + 0 * 3600 + 0 * 60 + 0 : Nat) : Int) := by
  obtain ⟨n, hn⟩ := exists_month (@exists_year 12000000 (by omega)) (m := 3) (by omega) (by omega)
  exact ⟨n, hn, (hn.secs (by decide) (by decide)).not.mpr (by decide)⟩

end DayCount

lemma decimal_le : decimal n bs + 23 ≤ (n + 23) * 10 ^ bs.length := by
  induction bs generalizing n with
  | nil => simp
  | cons c bs ih =>
    have hc := c.toNat_lt
    rw [decimal_cons, length_cons, Nat.pow_succ', ← Nat.mul_assoc]
    refine ih.trans ?_
    exact Nat.mul_le_mul_right _ (by omega)

lemma leapYear_fullYear : leapYear (fullYear y) ↔ leapYear y := by
  unfold leapYear fullYear
  split_ifs <;> omega

lemma daysInMonth_fullYear : daysInMonth (fullYear (number t.year)) m = daysInMonth t.yearNo m := by
  unfold DateText.yearNo
  split
  · rfl
  all_goals simp only [daysInMonth, leapYear_fullYear]

lemma dateSecs_time (ht : ¬ (h ≤ 23 ∧ mi ≤ 59 ∧ s ≤ 59)) :
    dateSecs y m d h mi s = some cstrNeq := by
  have hcheck : checkDate y m d h mi s = some false := by
    unfold checkDate
    rw [if_pos (by omega)]
  rw [dateSecs, hcheck]
  rfl

lemma dateSecs_days (hm : 1 ≤ m ∧ m ≤ 12) (ht : h ≤ 23 ∧ mi ≤ 59 ∧ s ≤ 59)
    (hd : ¬ d ≤ daysInMonth y m) : dateSecs y m d h mi s = some cstrNeq := by
  have hcheck : checkDate y m d h mi s = some false := by
    rw [checkDate_eq hm ht, decide_eq_false hd]
  rw [dateSecs, hcheck]
  rfl

lemma dateSecs_noMonth (ht : h ≤ 23 ∧ mi ≤ 59 ∧ s ≤ 59) :
    dateSecs y (cstrNeq % 2 ^ 32).toNat d h mi s = none := by
  have hmonth : (cstrNeq % 2 ^ 32).toNat = 4294967294 := by decide
  have hcheck : checkDate y 4294967294 d h mi s = none := by
    unfold checkDate
    rw [if_neg (by omega), if_neg (by omega)]
    rfl
  rw [hmonth, dateSecs, hcheck]
  rfl

def SinceEpoch (y m d : Nat) : Prop :=
  if d = 0 then m = 3 ∨ 1970 < y ∨ (y = 1970 ∧ 2 ≤ m) else 1970 ≤ y

lemma result_eq (f : DateType) {month : Nat}
    (hmonth : (parseMonth (monthInt t.mon) % 2 ^ 32).toNat = month) :
    (p.atRes f t.acc).result =
      match dateSecs (fullYear (number t.year)) month (number t.day)
        (number t.hour) (number t.min) (number t.sec) with
      | none => .inr .outOfBounds
      | some date =>
        if date < 0 then .inr .neq
        else .inl { p.atRes f t.acc with
          acc := { t.acc with year := fullYear (number t.year) }
          date := date
          iSt := .eoL } := by
  have hyear : (if number t.year < 100 then
      number t.year + (if number t.year < 70 then 2000 else 1900)
      else number t.year) = fullYear (number t.year) := by
    unfold fullYear
    split_ifs <;> omega
  have hacc : (p.atRes f t.acc).acc = t.acc := rfl
  have hnum : t.acc.year = number t.year ∧ t.acc.day = number t.day ∧
      t.acc.hour = number t.hour ∧ t.acc.min = number t.min ∧
      t.acc.sec = number t.sec ∧ t.acc.monthInt = monthInt t.mon :=
    ⟨rfl, rfl, rfl, rfl, rfl, rfl⟩
  have hres : (p.atRes f t.acc).result = (p.atRes f t.acc).result := rfl
  conv at hres => rhs; unfold result
  simp only [hacc, hnum, hmonth, hyear, Nat.not_lt_zero, if_false] at hres
  exact hres

lemma scan_atRes (hl : l ≠ []) :
    scan (byteStep nctl) (p.atRes f a) l =
      match (p.atRes f a).result with
      | .inl q => scan (byteStep nctl) q l
      | .inr r => .inr r := by
  obtain ⟨c, l, rfl⟩ := exists_cons_of_ne_nil hl
  have hst : (p.atRes f a).iSt = .res := rfl
  cases hres : (p.atRes f a).result with
  | inl q =>
    have hsame : byteStep nctl (p.atRes f a) c = byteStep nctl q c := by
      simp only [DateParser.byteStep, hst, hres, (result_keeps hres).1]
    show _ = scan (byteStep nctl) q (c :: l)
    rw [scan, scan, hsame]
  | inr r =>
    refine scan_stop ?_
    simp only [DateParser.byteStep, hst, hres]

lemma scan_line (hst : q.iSt = .eoL) (hl : l ≠ []) :
    scan (byteStep nctl) q l =
      match l.dropWhile nctl with
      | [] => .inl q.clearAcc
      | c :: _ => .inr (if isCrlf c then .ok q.date else .neq) := by
  have hdrop : l.drop (l.takeWhile nctl).length = l.dropWhile nctl := by
    have h := takeWhile_append_dropWhile (p := nctl) (l := l)
    calc l.drop (l.takeWhile nctl).length
        = (l.takeWhile nctl ++ l.dropWhile nctl).drop (l.takeWhile nctl).length := by rw [h]
      _ = l.dropWhile nctl := drop_left
  have hskip : scan (byteStep nctl) q l = _ := scan_eoL hst l
  rw [if_neg hl, hdrop] at hskip
  exact hskip

lemma scan_date (ht : t.WellFormed) (hp : p.iSt = .wDate1) (hc : p.chunkLen = 0)
    (htail : tail ≠ []) :
    scan (byteStep nctl) p (t.text ++ tail) =
      match (p.atRes t.form t.acc).result with
      | .inl q => scan (byteStep nctl) q tail
      | .inr r => .inr r := by
  rw [scan_text ht hp hc, scan_atRes htail]

/-- The text names a day of the calendar, or day 0 of a month, from 1970 on. -/
def Read (t : DateText) (m : Nat) : Prop :=
  number t.day ≤ daysInMonth t.yearNo m ∧
    SinceEpoch (fullYear (number t.year)) m (number t.day)

lemma result_cases (ht : t.WellFormed) :
    (¬ t.TimeOk ∧ (p.atRes t.form t.acc).result = .inr .neq) ∨
      (t.TimeOk ∧ t.month = none ∧ (p.atRes t.form t.acc).result = .inr .outOfBounds) ∨
      (t.TimeOk ∧ ∃ m, t.month = some m ∧
        ((¬ Read t m ∧ (p.atRes t.form t.acc).result = .inr .neq) ∨
          (Read t m ∧ ∃ q, q.iSt = .eoL ∧ (p.atRes t.form t.acc).result = .inl q))) := by
  have hmon : t.mon.length = 3 := by
    obtain ⟨x, as, has, -, hlen, -⟩ := ht.mon
    rw [has, length_cons, hlen]
  have hparse := parseMonth_monthInt hmon
  by_cases htime : t.TimeOk
  · right
    cases hm : t.month with
    | none =>
      rw [hm] at hparse
      refine .inl ⟨htime, rfl, ?_⟩
      rw [result_eq t.form (congrArg (fun v => (v % 2 ^ 32).toNat) hparse),
        dateSecs_noMonth htime]
    | some m =>
      rw [hm] at hparse
      have hbounds := month_bounds hm
      have hmod : (parseMonth (monthInt t.mon) % 2 ^ 32).toNat = m := by
        rw [hparse]
        show ((m : Int) % 2 ^ 32).toNat = m
        omega
      refine .inr ⟨htime, m, rfl, ?_⟩
      rw [result_eq t.form hmod]
      unfold Read
      rw [← daysInMonth_fullYear]
      by_cases hd : number t.day ≤
          daysInMonth (fullYear (number t.year)) m
      · have hlen : (t.year.filter isDigit).length ≤ 4 := by
          have hyear := ht.year
          have hle := length_filter_le isDigit t.year
          split at hyear <;> have := hyear.1 <;> omega
        have hyear : fullYear (number t.year) ≤ 11759221 := by
          have hle := @decimal_le (t.year.filter isDigit) 0
          have hpow := Nat.pow_le_pow_right (show 0 < 10 by decide) hlen
          unfold fullYear number
          split_ifs <;> omega
        obtain ⟨secs, hsecs, hsign⟩ := dateSecs_eq hbounds htime hd hyear
        rw [hsecs]
        by_cases hneg : secs < 0
        · refine .inl ⟨fun hread => ?_, by simp only [hneg, if_true]⟩
          exact absurd (hsign.mpr hread.2) (by omega)
        · refine .inr ⟨⟨hd, hsign.mp (by omega)⟩, _, ?_, by simp only [hneg, if_false]; rfl⟩
          rfl
      · rw [dateSecs_days hbounds htime hd]
        exact .inl ⟨fun hread => hd hread.1, rfl⟩
  · left
    refine ⟨htime, ?_⟩
    rw [result_eq t.form rfl, dateSecs_time htime]
    rfl

lemma outOfBounds_iff (ht : t.WellFormed) (hp : p.iSt = .wDate1) (hc : p.chunkLen = 0)
    (htail : tail ≠ []) :
    scan (byteStep nctl) p (t.text ++ tail) = .inr .outOfBounds ↔ t.TimeOk ∧ t.month = none := by
  rw [scan_date ht hp hc htail]
  obtain ⟨hno, hres⟩ | ⟨htime, hm, hres⟩ | ⟨htime, m, hm, ⟨-, hres⟩ | ⟨-, q, hq, hres⟩⟩ :=
    @result_cases p t ht
  · rw [hres]
    exact ⟨nofun, fun h => absurd h.1 hno⟩
  · rw [hres]
    exact ⟨fun _ => ⟨htime, hm⟩, fun _ => rfl⟩
  · rw [hres, hm]
    exact ⟨nofun, nofun⟩
  · rw [hres, hm]
    dsimp only
    rw [scan_line hq htail]
    refine ⟨fun h => ?_, nofun⟩
    split at h
    · cases h
    · split at h <;> cases h

lemma accepted_iff (ht : t.WellFormed) (hp : p.iSt = .wDate1) (hc : p.chunkLen = 0)
    (htail : tail ≠ []) :
    (∃ d, scan (byteStep nctl) p (t.text ++ tail) = .inr (.ok d)) ↔
      t.TimeOk ∧ EndsLine nctl tail ∧ ∃ m, t.month = some m ∧ Read t m := by
  rw [scan_date ht hp hc htail]
  obtain ⟨hno, hres⟩ | ⟨htime, hm, hres⟩ | ⟨htime, m, hm, ⟨hread, hres⟩ | ⟨hread, q, hq, hres⟩⟩ :=
    @result_cases p t ht
  · rw [hres]
    exact ⟨nofun, fun h => absurd h.1 hno⟩
  · rw [hres, hm]
    exact ⟨nofun, nofun⟩
  · rw [hres, hm]
    refine ⟨nofun, ?_⟩
    rintro ⟨-, -, m', hm', hread'⟩
    cases hm'
    exact absurd hread' hread
  · rw [hres]
    dsimp only
    rw [scan_line hq htail]
    constructor
    · rintro ⟨d, h⟩
      split at h
      · cases h
      · rename_i c rest hdrop
        split at h
        · rename_i hcr
          exact ⟨htime, ⟨c, rest, hdrop, hcr⟩, m, hm, hread⟩
        · cases h
    · rintro ⟨-, ⟨c, rest, hdrop, hcr⟩, -⟩
      rw [hdrop]
      exact ⟨q.date, by simp only [hcr, if_true]⟩

/-- The parser takes a value for a date, whatever pieces it arrives in. -/
def Accepts (nctl : UInt8 → Bool) (p : DateParser) (pieces : List (List UInt8)) : Prop :=
  ∃ d, feedHttpDate nctl p pieces = .inr (.ok d)

/-- The parser takes exactly the days of the calendar for dates, and reads no table
outside of its bounds. -/
structure ReadsDates (nctl : UInt8 → Bool) (p : DateParser) (pieces : List (List UInt8)) :
    Prop where
  sound : ∀ t tail, DateText.WellFormed t → pieces.flatten = t.text ++ tail →
    Accepts nctl p pieces → t.Valid
  complete : ∀ t tail, DateText.WellFormed t → pieces.flatten = t.text ++ tail → t.Valid →
    t.TimeOk → EndsLine nctl tail → Accepts nctl p pieces
  inBounds : feedHttpDate nctl p pieces ≠ .inr .outOfBounds

/-- The value does not begin with a date that has an unknown month, a day 0 since
1970, day 0 of March, or a day before 1970. -/
def CommonDate (nctl : UInt8 → Bool) (value : List UInt8) : Prop :=
  ∀ t tail, DateText.WellFormed t → tail ≠ [] → value = t.text ++ tail → t.TimeOk →
    ∃ m, t.month = some m ∧ (EndsLine nctl tail →
      let y := fullYear (number t.year)
      (number t.day = 0 → m ≠ 3 ∧ (y < 1970 ∨ y = 1970 ∧ m = 1)) ∧
        (t.Valid → 1970 ≤ y))

lemma sinceEpoch_iff (hm : 1 ≤ m) : SinceEpoch y m d ↔
    (d = 0 → ¬ (m ≠ 3 ∧ (y < 1970 ∨ y = 1970 ∧ m = 1))) ∧ (d ≠ 0 → 1970 ≤ y) := by
  unfold SinceEpoch
  split_ifs <;> omega

theorem readsDates_iff {nctl : UInt8 → Bool} {p : DateParser} (hp : p.iSt = .wDate1)
    (hc : p.chunkLen = 0) {pieces : List (List UInt8)} (hne : ∀ d ∈ pieces, d ≠ []) :
    ReadsDates nctl p pieces ↔ CommonDate nctl pieces.flatten := by
  have hfeed : feedHttpDate nctl p pieces = scan (byteStep nctl) p pieces.flatten :=
    feedHttpDate_eq_scan (.of_zero hc) hne
  constructor
  · intro h t tail ht htail hval htime
    rw [hval] at hfeed
    have hacc := @accepted_iff nctl tail p t ht hp hc htail
    cases hm : t.month with
    | none =>
      refine absurd ?_ h.inBounds
      rw [hfeed]
      exact (outOfBounds_iff ht hp hc htail).mpr ⟨htime, hm⟩
    | some m =>
      have hbounds := month_bounds hm
      refine ⟨m, rfl, fun hline => ⟨fun hzero => ?_, fun hvalid => ?_⟩⟩
      · by_contra hbad
        have hread : Read t m := by
          refine ⟨by rw [hzero]; exact Nat.zero_le _, (sinceEpoch_iff hbounds.1).mpr ?_⟩
          exact ⟨fun _ => hbad, fun hne => absurd hzero hne⟩
        obtain ⟨d, hd⟩ := hacc.mpr ⟨htime, hline, m, hm, hread⟩
        obtain ⟨_, _, hone, _⟩ := h.sound t tail ht hval ⟨d, hfeed.trans hd⟩
        omega
      · obtain ⟨d, hd⟩ := h.complete t tail ht hval hvalid htime hline
        obtain ⟨-, -, m', hm', hread⟩ := hacc.mp ⟨d, hfeed.symm.trans hd⟩
        obtain ⟨m'', hm'', hone, -⟩ := hvalid
        exact ((sinceEpoch_iff (month_bounds hm').1).mp hread.2).2 (by omega)
  · intro h
    have htail : ∀ {t tail}, pieces.flatten = DateText.text t ++ tail → t.WellFormed →
        Accepts nctl p pieces → tail ≠ [] := by
      rintro t tail hval ht ⟨d, hd⟩ rfl
      rw [hfeed, hval, scan_text ht hp hc] at hd
      cases hd
    refine ⟨?_, ?_, ?_⟩
    · intro t tail ht hval hacc
      have hne' := htail hval ht hacc
      obtain ⟨d, hd⟩ := hacc
      rw [hfeed, hval] at hd
      obtain ⟨htime, hline, m, hm, hread⟩ := (accepted_iff ht hp hc hne').mp ⟨d, hd⟩
      obtain ⟨m', hm', hcommon⟩ := h t tail ht hne' hval htime
      cases hm.symm.trans hm'
      refine ⟨m, hm, ?_, hread.1⟩
      by_contra hzero
      have hzero : number t.day = 0 := by omega
      exact ((sinceEpoch_iff (month_bounds hm).1).mp hread.2).1 hzero ((hcommon hline).1 hzero)
    · intro t tail ht hval hvalid htime hline
      have hne' : tail ≠ [] := by
        rintro rfl
        obtain ⟨c, rest, h, -⟩ := hline
        cases h
      obtain ⟨m, hm, hcommon⟩ := h t tail ht hne' hval htime
      have hyear := (hcommon hline).2 hvalid
      obtain ⟨m', hm', hone, hdays⟩ := hvalid
      cases hm.symm.trans hm'
      have hread : Read t m :=
        ⟨hdays, (sinceEpoch_iff (month_bounds hm).1).mpr ⟨fun hz => by omega, fun _ => hyear⟩⟩
      obtain ⟨d, hd⟩ := (@accepted_iff nctl tail p t ht hp hc hne').mpr
        ⟨htime, hline, m, hm, hread⟩
      exact ⟨d, by rw [hfeed, hval, hd]⟩
    · intro hoob
      rw [hfeed] at hoob
      obtain ⟨t, tail, ht, hval, hscan⟩ := scan_text_inv hp hc hoob (by nofun)
      have hne' : tail ≠ [] := by
        rintro rfl
        cases hscan
      rw [hval] at hoob
      obtain ⟨htime, hm⟩ := (outOfBounds_iff ht hp hc hne').mp hoob
      obtain ⟨m, hm', -⟩ := h t tail ht hne' hval htime
      cases hm.symm.trans hm'

def printable (c : UInt8) : Bool := 0x20 ≤ c && c != 0x7f

def start : DateParser := ⟨.wDate1, ⟨0, 0, 0, 0, 0, 0⟩, .rfc822, 0, 0, 0⟩

lemma commonDate_nov94 : CommonDate printable (ofAscii "Sun, 06 Nov 1994 08:49:37 GMT\x0d") := by
  rintro ⟨form, weekday, day, mon, year, hour, min, sec, gmt⟩ tail ht - hval -
  have hcomma : (ofAscii "Sun, 06 Nov 1994 08:49:37 GMT\x0d")[3]? = some 0x2c := by decide
  cases form with
  | rfc822 =>
    obtain ⟨a, as, rfl, -, hlen, -⟩ := ht.weekday
    obtain ⟨m, ms, rfl, -, hms, -⟩ := ht.mon
    obtain ⟨x, y, rfl⟩ := length_eq_two.mp hlen
    obtain ⟨d, d', rfl⟩ := length_eq_two.mp ht.day.1
    obtain ⟨p, q, rfl⟩ := length_eq_two.mp hms
    have hday := congrArg (fun l => (l.drop 5).take 2) hval
    have hmon := congrArg (fun l => (l.drop 8).take 3) hval
    have hyear := congrArg (fun l => (l.drop 12).take 4) hval
    have htake : ∀ l : List UInt8, (year ++ l).take 4 = year := fun l => take_left' ht.year.1
    simp only [DateText.text, DateText.lead, DateText.body, cons_append, nil_append, append_assoc,
      drop_succ_cons, drop_zero, take_succ_cons, take_zero, htake] at hday hmon hyear
    rw [← hday, ← hmon, ← hyear]
    refine ⟨11, by dsimp only [DateText.month]; decide, fun _ => ⟨?_, fun _ => ?_⟩⟩
    · dsimp only
      decide
    · dsimp only
      decide
  | rfc850 =>
    obtain ⟨n, hn, a, as, rfl, -, hlen, hlow⟩ := ht.weekday
    have hget : as[2]? = some 0x2c := by
      rw [hval] at hcomma
      simpa [DateText.text, DateText.lead,
        getElem?_append_left (show 2 < as.length by omega)] using hcomma
    exact absurd (hlow _ (mem_of_getElem? hget)) (by decide)
  | isoc =>
    obtain ⟨a, as, rfl, -, hlen, -⟩ := ht.weekday
    obtain ⟨x, y, rfl⟩ := length_eq_two.mp hlen
    rw [hval] at hcomma
    cases hcomma

theorem readsDates_two_pieces :
    ReadsDates printable start [ofAscii "Sun, 06 No", ofAscii "v 1994 08:49:37 GMT\x0d"] :=
  (readsDates_iff rfl rfl (by decide)).mpr commonDate_nov94

/-- An unknown month, day 0, and a date before 1970 -/
theorem strange_dates :
    ¬ ReadsDates printable start [ofAscii "Sun, 06 Abc 1994 08:49:37 GMT\x0d"] ∧
      feedHttpDate printable start [ofAscii "Sun, 00 Nov 1994 08:49:37 GMT\x0d"] =
        .inr (.ok 783593377) ∧
      feedHttpDate printable start [ofAscii "Sun, 06 Nov 1960 08:49:37 GMT\x0d"] =
        .inr .neq := by
  refine ⟨fun h => h.inBounds (by decide +kernel), ?_⟩
  decide +kernel

end DateParser
end Tempesta.Http
