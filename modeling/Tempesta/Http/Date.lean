import Tempesta.Http.Chars
import Tempesta.Http.ParseInt
import Tempesta.Lib.Iterate

/-!
The parser of HTTP dates, `__parse_http_date`. Its state is kept in the parser of
the message, so that a date may arrive in pieces. After the name of the day a
template says which character of the date is read next, for each of the three
formats. The alphabet that the rest of the line is skipped with can be configured
and is a parameter.
-/

namespace Tempesta.Http

open ScanLib

inductive DateState where
  | wDate1
  | wDate2
  | wDate3
  | wDate4
  | wDate5
  | wDaySP
  | sp
  | minus
  | sc
  | spaceOrDay
  | day
  | monthBeg
  | month
  | year
  | hour
  | min
  | sec
  | gmt
  | res
  | eoL
  deriving DecidableEq, Repr

/-- `date_type_t` -/
inductive DateType where
  | rfc822
  | rfc850
  | isoc
  deriving DecidableEq, Repr

/-- The table `st` -/
def dateTempl : DateType → List DateState
  | .rfc822 =>
    [.day, .day, .sp, .monthBeg, .month, .month, .sp, .year, .year, .year, .year, .sp,
      .hour, .hour, .sc, .min, .min, .sc, .sec, .sec, .sp, .gmt, .res]
  | .rfc850 =>
    [.day, .day, .minus, .monthBeg, .month, .month, .minus, .year, .year, .sp,
      .hour, .hour, .sc, .min, .min, .sc, .sec, .sec, .sp, .gmt, .res]
  | .isoc =>
    [.monthBeg, .month, .month, .sp, .spaceOrDay, .day, .sp,
      .hour, .hour, .sc, .min, .min, .sc, .sec, .sec, .sp, .year, .year, .year, .year, .res]

/-- The numbers of `parser->date`, and `month_int`. -/
structure DateAcc where
  year : Nat
  day : Nat
  hour : Nat
  min : Nat
  sec : Nat
  monthInt : Nat
  deriving DecidableEq, Repr

/-- The fields of `TfwHttpParser` for dates. `iSt` is `_i_st`, whose `NULL` is the
first state and whose `__I_EoL` is the last one; `chunkLen` is the length of
`_tmp_chunk`. `month_int` shares its memory with `_date` and is not read after that
is written. -/
structure DateParser where
  iSt : DateState
  acc : DateAcc
  type : DateType
  pos : Nat
  date : Int
  chunkLen : Nat
  deriving DecidableEq, Repr

/-- `st[parser->date.type][pos]`; every row ends with `I_Res`. -/
def DateParser.st (p : DateParser) (pos : Nat) : DateState := (dateTempl p.type).getD pos .res

/-- `parser->_acc = 0`: `_acc` is the memory of `date`. -/
def DateParser.clearAcc (p : DateParser) : DateParser :=
  { p with acc := ⟨0, 0, 0, 0, 0, p.acc.monthInt⟩, type := .rfc822, pos := 0 }

def tfwChar4Int (a b c d : UInt8) : Nat :=
  d.toNat <<< 24 ||| c.toNat <<< 16 ||| b.toNat <<< 8 ||| a.toNat

def cstrNeq : Int := -2

/-- The cases of `__parse_month` -/
def dateMonths : List Nat :=
  ["Jan", "Feb", "Mar", "Apr", "May", "Jun", "Jul", "Aug", "Sep", "Oct", "Nov", "Dec"].map
    fun s =>
      match ofAscii s with
      | [a, b, c] => tfwChar4Int 0x20 a b c
      | _ => 0

def parseMonth (monthInt : Nat) : Int :=
  match dateMonths.findIdx? (· == monthInt) with
  | some i => i + 1
  | none => cstrNeq

/-- The array `mday` of `__check_date` -/
def mday : List Nat := [31, 28, 31, 30, 31, 30, 31, 31, 30, 31, 30, 31]

/-- `__check_date`, true if it returns 0; `none` is an access outside of `mday`. -/
def checkDate (year month day hour min sec : Nat) : Option Bool :=
  if hour > 23 ∨ min > 59 ∨ sec > 59 then some false
  else if day = 29 ∧ month = 2 then
    some (!(year % 4 ≠ 0 ∨ (year % 100 = 0 ∧ year % 400 ≠ 0)))
  else (mday[(month + 2 ^ 32 - 1) % 2 ^ 32]?).map fun m => !(decide (day > m))

def epochDays : Int := 1970 * 365 + 1970 / 4 - 1970 / 100 + 1970 / 400

/-- Days in the current year since March 1, an `unsigned int` -/
def marchDays (month day : Nat) : Nat :=
  ((153 * (if month > 2 then month - 3 else month + 9) + 2) / 5 + day + 2 ^ 32 - 1) % 2 ^ 32

def yearDays (year : Nat) : Nat := year * 365 + year / 4 - year / 100 + year / 400

/-- `__date_secs`; `none` is an access outside of `mday`. -/
def dateSecs (year month day hour min sec : Nat) : Option Int :=
  (checkDate year month day hour min sec).map fun ok =>
    if !ok then cstrNeq
    else
      let days := marchDays month day + yearDays (if month ≤ 2 then year - 1 else year) % 2 ^ 32
      ((days : Nat) - epochDays + 31 + 28) * 86400 + hour * 3600 + min * 60 + sec

/-- What ends `__parse_http_date`: a value that is no date, an access outside of
`mday`, or the end of the line with the date. -/
inductive DateStop where
  | neq
  | outOfBounds
  | ok (date : Int)
  deriving DecidableEq, Repr

namespace DateParser

/-- The states of the template that read one character: what they make of the
numbers, `none` for `CSTR_NEQ`. -/
def templChar (st : DateState) (a : DateAcc) (c : UInt8) : Option DateAcc :=
  let digit := c.toNat - 48
  let monthInt := (c.toNat <<< 24 ||| a.monthInt >>> 8) % 2 ^ 32
  match st with
  | .sp => if c = 0x20 then some a else none
  | .minus => if c = 0x2d then some a else none
  | .sc => if c = 0x3a then some a else none
  | .spaceOrDay =>
    if c = 0x20 then some a
    else if isDigit c then some { a with day := a.day * 10 + digit }
    else none
  | .day => if isDigit c then some { a with day := a.day * 10 + digit } else none
  | .monthBeg => if isUpper c then some { a with monthInt := monthInt } else none
  | .month => if isLower c then some { a with monthInt := monthInt } else none
  | .year => if isDigit c then some { a with year := a.year * 10 + digit } else none
  | .hour => if isDigit c then some { a with hour := a.hour * 10 + digit } else none
  | .min => if isDigit c then some { a with min := a.min * 10 + digit } else none
  | .sec => if isDigit c then some { a with sec := a.sec * 10 + digit } else none
  | _ => none

/-- `__NEXT_TEMPL_STATE` -/
def nextTempl (p : DateParser) (acc : DateAcc) : DateParser :=
  { p with acc := acc, pos := p.pos + 1, iSt := p.st (p.pos + 1) }

/-- The states that read one character: the parser at the next state, `none` for
`CSTR_NEQ`. -/
def readChar (p : DateParser) (c : UInt8) : Option DateParser :=
  match p.iSt with
  | .wDate1 => if isUpper c then some { p with iSt := .wDate2 } else none
  | .wDate2 => if isLower c then some { p with iSt := .wDate3 } else none
  | .wDate3 => if isLower c then some { p with iSt := .wDate4 } else none
  | .wDate4 =>
    let p := { p.clearAcc with acc := ⟨0, 0, 0, 0, 0, 0x20 <<< 24⟩ }
    if c = 0x2c then some { p with type := .rfc822, iSt := .wDaySP }
    else if isLower c then some { p with type := .rfc850, iSt := .wDate5 }
    else if c = 0x20 then
      let p := { p with type := .isoc }
      some { p with iSt := p.st p.pos }
    else none
  | .wDate5 =>
    if isLower c then some { p with iSt := .wDate5 }
    else if c = 0x2c then some { p with iSt := .wDaySP }
    else none
  | .wDaySP => if c = 0x20 then some { p with iSt := p.st p.pos } else none
  | .gmt | .res | .eoL => none
  | st => (templChar st p.acc c).map p.nextTempl

/-- `I_Res`, up to the jump to `I_EoL` -/
def result (p : DateParser) : DateParser ⊕ DateStop :=
  let month := (parseMonth p.acc.monthInt % 2 ^ 32).toNat
  if month < 0 then .inr .neq
  else
    let a := p.acc
    let year := if a.year < 100 then a.year + (if a.year < 70 then 2000 else 1900) else a.year
    match dateSecs year month a.day a.hour a.min a.sec with
    | none => .inr .outOfBounds
    | some date =>
      if date < 0 then .inr .neq
      else .inl { p with acc := { a with year := year }, date := date, iSt := .eoL }

/-- What `__parse_http_date` returns: `CSTR_POSTPONE`, or it ends; for the end of
the line, with the number of bytes in front of it. -/
inductive Ret where
  | postpone (p : DateParser)
  | stop (r : DateStop) (off : Nat)
  deriving DecidableEq, Repr

variable (nctl : UInt8 → Bool)

/-- The part of `__parse_http_date` from one jump to the next, on the data from
`p`, the offset of which is `off`. -/
def step (x : DateParser × Nat × List UInt8) : (DateParser × Nat × List UInt8) ⊕ Ret :=
  let (p, off, data) := x
  let move (p : DateParser) (n : Nat) : (DateParser × Nat × List UInt8) ⊕ Ret :=
    if data.drop n = [] then .inr (.postpone p) else .inl (p, off + n, data.drop n)
  match p.iSt with
  | .gmt =>
    match tryStr (ofAscii "gmt") p.chunkLen data with
    | .full n => move { p with chunkLen := 0, iSt := p.st (p.pos + 1) } n
    | .part n => .inr (.postpone { p with chunkLen := p.chunkLen + n })
    | .neq => .inr (.stop .neq off)
  | .res =>
    match p.result with
    | .inl p => .inl (p, off, data)
    | .inr r => .inr (.stop r off)
  | .eoL =>
    let p := p.clearAcc
    let sz := (data.takeWhile nctl).length
    match data.drop sz with
    | [] => .inr (.postpone p)
    | c :: _ => .inr (.stop (if isCrlf c then .ok p.date else .neq) (off + sz))
  | _ =>
    match data with
    | [] => .inr (.postpone p)
    | c :: _ =>
      match p.readChar c with
      | some p => move p 1
      | none => .inr (.stop .neq off)

end DateParser

def parseHttpDate (nctl : UInt8 → Bool) (p : DateParser) (data : List UInt8) :
    Option DateParser.Ret :=
  IterLib.iterate (DateParser.step nctl) (2 * data.length + 2) (p, 0, data)

variable {c : UInt8} {off off' n : Nat} {pieces : List (List UInt8)}

namespace DateParser
variable {nctl : UInt8 → Bool}

def skipChar (nctl : UInt8 → Bool) (p : DateParser) (c : UInt8) : DateParser ⊕ DateStop :=
  if nctl c then .inl p.clearAcc else .inr (if isCrlf c then .ok p.date else .neq)

def byteStep (nctl : UInt8 → Bool) (p : DateParser) (c : UInt8) : DateParser ⊕ DateStop :=
  match p.iSt with
  | .gmt =>
    if (ofAscii "gmt")[p.chunkLen]? = some (tfwLc c) then
      .inl (if p.chunkLen + 1 = (ofAscii "gmt").length then
          { p with chunkLen := 0, iSt := p.st (p.pos + 1) }
        else { p with chunkLen := p.chunkLen + 1 })
    else .inr .neq
  | .res =>
    match p.result with
    | .inl p => skipChar nctl p c
    | .inr r => .inr r
  | .eoL => skipChar nctl p c
  | _ =>
    match p.readChar c with
    | some p => .inl p
    | none => .inr .neq

/-- Outside of "GMT" no characters of it were seen, and inside not all. -/
def ChunkOk (p : DateParser) : Prop := p.chunkLen < 3 ∧ (p.iSt ≠ .gmt → p.chunkLen = 0)

variable {p : DateParser}

lemma ChunkOk.of_zero (h : p.chunkLen = 0) : p.ChunkOk :=
  ⟨by omega, fun _ => h⟩

/-- One of the states of `readChar` -/
def ReadsChar (p : DateParser) : Prop := p.iSt ≠ .gmt ∧ p.iSt ≠ .res ∧ p.iSt ≠ .eoL

lemma byteStep_readChar (h : p.ReadsChar) (c : UInt8) :
    byteStep nctl p c = match p.readChar c with | some p => .inl p | none => .inr .neq := by
  unfold byteStep
  split
  · exact absurd ‹_› h.1
  · exact absurd ‹_› h.2.1
  · exact absurd ‹_› h.2.2
  · rfl

lemma step_readChar (h : p.ReadsChar) (off : Nat) (c : UInt8) (data : List UInt8) :
    step nctl (p, off, c :: data) =
      match p.readChar c with
      | some p => if data = [] then .inr (.postpone p) else .inl (p, off + 1, data)
      | none => .inr (.stop .neq off) := by
  unfold step
  dsimp only
  split
  · exact absurd ‹_› h.1
  · exact absurd ‹_› h.2.1
  · exact absurd ‹_› h.2.2
  · rfl

lemma state_cases : p.iSt = .gmt ∨ p.iSt = .res ∨ p.iSt = .eoL ∨ p.ReadsChar := by
  tauto

variable {p' : DateParser}

lemma readChar_chunkLen (h : p.readChar c = some p') : p'.chunkLen = p.chunkLen := by
  unfold readChar at h
  split at h
  iterate 9
    · repeat' split at h
      all_goals
        first
        | cases h; rfl
        | cases h
  · obtain ⟨q, hq, rfl⟩ := Option.map_eq_some_iff.mp h
    rfl

lemma result_keeps (h : p.result = .inl p') : p'.iSt = .eoL ∧ p'.chunkLen = p.chunkLen := by
  unfold result at h
  dsimp only at h
  rw [if_neg (Nat.not_lt_zero _)] at h
  split at h
  · cases h
  · split at h
    · cases h
    · cases h
      exact ⟨rfl, rfl⟩

lemma ChunkOk.byteStep (h : p.ChunkOk) (hs : byteStep nctl p c = .inl p') : p'.ChunkOk := by
  obtain hst | hst | hst | hst := p.state_cases
  · simp only [DateParser.byteStep, hst] at hs
    split at hs
    · cases hs
      split
      · exact .of_zero rfl
      · rename_i hlen
        have hlt := h.1
        have hlen : p.chunkLen + 1 ≠ 3 := hlen
        exact ⟨by show p.chunkLen + 1 < 3; omega, fun hne => absurd rfl hne⟩
    · cases hs
  · have hzero := h.2 (by rw [hst]; decide)
    simp only [DateParser.byteStep, hst] at hs
    split at hs
    · rename_i q hq
      unfold skipChar at hs
      split at hs
      · cases hs
        exact .of_zero ((result_keeps hq).2.trans hzero)
      · cases hs
    · cases hs
  · have hzero := h.2 (by rw [hst]; decide)
    simp only [DateParser.byteStep, hst, skipChar] at hs
    split at hs
    · cases hs
      exact .of_zero hzero
    · cases hs
  · have hzero := h.2 hst.1
    rw [byteStep_readChar hst] at hs
    split at hs
    · rename_i q hq
      cases hs
      exact .of_zero ((readChar_chunkLen hq).trans hzero)
    · cases hs

lemma scan_eoL (hst : p.iSt = .eoL) (data : List UInt8) :
    scan (byteStep nctl) p data =
      if data = [] then .inl p
      else match data.drop (data.takeWhile nctl).length with
        | [] => .inl p.clearAcc
        | c :: _ => .inr (if isCrlf c then .ok p.date else .neq) := by
  induction data generalizing p with
  | nil => rfl
  | cons c data ih =>
    rw [if_neg (List.cons_ne_nil _ _)]
    have hb : byteStep nctl p c = skipChar nctl p c := by
      simp only [DateParser.byteStep, hst]
    by_cases hc : nctl c
    · have hnext : byteStep nctl p c = .inl p.clearAcc := by rw [hb, skipChar, if_pos hc]
      rw [scan_next hnext]
      rw [ih (p := p.clearAcc) hst, List.takeWhile_cons_of_pos hc]
      by_cases hnil : data = []
      · subst hnil
        rfl
      · rw [if_neg hnil]
        rfl
    · rw [scan_stop (by rw [hb, skipChar, if_neg hc]), List.takeWhile_cons_of_neg hc]
      rfl

lemma scan_gmt (hst : p.iSt = .gmt) (hp : p.ChunkOk) {data : List UInt8} (hdata : data ≠ []) :
    scan (byteStep nctl) p data =
      match tryStr (ofAscii "gmt") p.chunkLen data with
      | .neq => .inr .neq
      | .part n => .inl { p with chunkLen := p.chunkLen + n }
      | .full n => scan (byteStep nctl) { p with chunkLen := 0, iSt := p.st (p.pos + 1) }
          (data.drop n) := by
  have hstep : ∀ n c, n < (ofAscii "gmt").length → byteStep nctl { p with chunkLen := n } c =
      if (ofAscii "gmt")[n]? = some (tfwLc c) then
        .inl (if n + 1 = (ofAscii "gmt").length then
            { p with chunkLen := 0, iSt := p.st (p.pos + 1) }
          else { p with chunkLen := n + 1 })
      else .inr .neq := by
    intro n c _
    simp only [DateParser.byteStep, hst]
    rfl
  exact @tryStr_eq_scan _ data p.chunkLen DateParser DateStop _
    (fun n => { p with chunkLen := n }) _ _ hstep hp.1 hdata

/-- What the caller sees of a return, apart from the offset -/
def Ret.outcome : Ret → DateParser ⊕ DateStop
  | .postpone p => .inl p
  | .stop r _ => .inr r

/-- Every jump goes on in the data or to the last state. -/
def measure (x : DateParser × Nat × List UInt8) : Nat :=
  2 * x.2.2.length + if x.1.iSt = .eoL then 0 else 1

lemma measure_drop_lt {data : List UInt8} (hn : 0 < n) (hdata : data ≠ []) :
    measure (p', off', data.drop n) < measure (p, off, data) := by
  have hlen := List.length_pos_iff.mpr hdata
  simp only [measure, List.length_drop]
  split <;> split <;> omega

/-- A position of the parser from which it reads on to the same end -/
def Leads (nctl : UInt8 → Bool) (r : DateParser ⊕ DateStop) (x : DateParser × Nat × List UInt8) :
    Prop :=
  x.2.2 ≠ [] ∧ x.1.ChunkOk ∧ scan (byteStep nctl) x.1 x.2.2 = r

variable {r : DateParser ⊕ DateStop} {x : DateParser × Nat × List UInt8}

lemma Leads.step (h : Leads nctl r x) :
    (∃ x', step nctl x = .inl x' ∧ Leads nctl r x' ∧ measure x' < measure x) ∨
      ∃ ret, step nctl x = .inr ret ∧ ret.outcome = r := by
  obtain ⟨p, off, data⟩ := x
  obtain ⟨hdata, hp, rfl⟩ := h
  replace hdata : data ≠ [] := hdata
  replace hp : p.ChunkOk := hp
  obtain hst | hst | hst | hst := p.state_cases
  · have hscan := @scan_gmt nctl p hst hp data hdata
    simp only [DateParser.step, hst]
    cases htry : tryStr (ofAscii "gmt") p.chunkLen data with
    | neq =>
      rw [htry] at hscan
      exact .inr ⟨_, rfl, hscan.symm⟩
    | part n =>
      rw [htry] at hscan
      exact .inr ⟨_, rfl, by simp only [hst] at hscan; exact hscan.symm⟩
    | full n =>
      rw [htry] at hscan
      have hn := tryStr_full_pos htry hp.1
      dsimp only at hscan ⊢
      by_cases hnil : data.drop n = []
      · rw [if_pos hnil]
        rw [hnil] at hscan
        exact .inr ⟨_, rfl, hscan.symm⟩
      · rw [if_neg hnil]
        exact .inl ⟨_, rfl, ⟨hnil, .of_zero rfl, hscan.symm⟩, measure_drop_lt hn hdata⟩
  · obtain ⟨c, rest, rfl⟩ := List.exists_cons_of_ne_nil hdata
    have hzero := hp.2 (by rw [hst]; decide)
    simp only [DateParser.step, hst]
    cases hres : p.result with
    | inl q =>
      have hq := result_keeps hres
      have hsame : byteStep nctl p c = byteStep nctl q c := by
        simp only [DateParser.byteStep, hst, hres, hq.1]
      refine .inl ⟨_, rfl, ⟨hdata, .of_zero (hq.2.trans hzero), ?_⟩, ?_⟩
      · rw [scan, scan, hsame]
      · simp [measure, hq.1, hst]
    | inr r =>
      have hstop : byteStep nctl p c = .inr r := by
        simp only [DateParser.byteStep, hst, hres]
      exact .inr ⟨_, rfl, (scan_stop hstop).symm⟩
  · have hscan := @scan_eoL nctl p hst data
    rw [if_neg hdata] at hscan
    simp only [DateParser.step, hst]
    rw [hscan]
    cases data.drop (data.takeWhile nctl).length with
    | nil => exact .inr ⟨_, rfl, rfl⟩
    | cons c rest => exact .inr ⟨_, rfl, rfl⟩
  · obtain ⟨c, rest, rfl⟩ := List.exists_cons_of_ne_nil hdata
    have hbyte := @byteStep_readChar nctl p hst c
    rw [step_readChar hst]
    cases hread : p.readChar c with
    | none =>
      rw [hread] at hbyte
      exact .inr ⟨_, rfl, (scan_stop hbyte).symm⟩
    | some q =>
      rw [hread] at hbyte
      have hscan : scan (byteStep nctl) p (c :: rest) = scan (byteStep nctl) q rest :=
        scan_next hbyte
      by_cases hnil : rest = []
      · subst hnil
        exact .inr ⟨_, if_pos rfl, hscan.symm⟩
      · refine .inl ⟨_, if_neg hnil, ⟨hnil, hp.byteStep hbyte, hscan.symm⟩, ?_⟩
        exact measure_drop_lt (n := 1) (by decide) hdata

/-- `__parse_http_date` ends, and reads its data as if character by character. -/
theorem parseHttpDate_eq_scan (hp : p.ChunkOk) {data : List UInt8} (hdata : data ≠ []) :
    ∃ r, parseHttpDate nctl p data = some r ∧ r.outcome = scan (byteStep nctl) p data := by
  have hstart : Leads nctl (scan (byteStep nctl) p data) (p, 0, data) := ⟨hdata, hp, rfl⟩
  have hjump : ∀ x x', Leads nctl (scan (byteStep nctl) p data) x → step nctl x = .inl x' →
      Leads nctl (scan (byteStep nctl) p data) x' ∧ measure x' < measure x := by
    intro x x' hx hs
    obtain ⟨y, hy, hlead, hlt⟩ | ⟨ret, hret, -⟩ := hx.step
    · cases hs.symm.trans hy
      exact ⟨hlead, hlt⟩
    · cases hs.symm.trans hret
  have hn : measure (p, 0, data) < 2 * data.length + 2 := by
    simp only [measure]
    split <;> omega
  obtain ⟨r, hr, hends⟩ := IterLib.iterate_ends hjump hstart hn
  refine ⟨r, hr, hends.invariant (Q := fun r => r.outcome = scan (byteStep nctl) p data)
    (fun x x' hx hs => (hjump x x' hx hs).1) ?_ hstart⟩
  intro x ret hx hs
  obtain ⟨y, hy, -⟩ | ⟨ret', hret, hout⟩ := hx.step
  · cases hs.symm.trans hy
  · cases hs.symm.trans hret
    exact hout

/-- `__parse_http_date` on one piece of data after the other -/
def feedHttpDate (nctl : UInt8 → Bool) (p : DateParser) (pieces : List (List UInt8)) :
    DateParser ⊕ DateStop :=
  feed (fun p data => ((parseHttpDate nctl p data).map Ret.outcome).getD (.inl p)) p pieces

lemma feedHttpDate_eq_scan (hp : p.ChunkOk) (hne : ∀ d ∈ pieces, d ≠ []) :
    feedHttpDate nctl p pieces = scan (byteStep nctl) p pieces.flatten := by
  apply feed_eq_scan (I := ChunkOk) (fun p c p' h hs => h.byteStep hs) ?_ hp hne
  intro p data hp hdata
  obtain ⟨r, hr, hout⟩ := @parseHttpDate_eq_scan nctl p hp data hdata
  rw [hr]
  exact hout

end DateParser

end Tempesta.Http
