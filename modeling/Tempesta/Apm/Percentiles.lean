import Tempesta.Lib.Stream
import Tempesta.Apm.Ranges

/-!
The percentiles of a ring buffer. Each entry is a stream of buckets with increasing
values, of which the cursors show the low 16 bits, and the calculation merges the
streams by what is shown. It reports a percentile rightly exactly if the hits in front
of values shown from there on do not reach it already.
-/

namespace Tempesta.Apm

open List StreamLib IterLib Function

/-- An entry of the ring buffer with its ranges laid out. -/
abbrev Entry : Type := { rng : TfwPcntRanges // Laid rng }

variable {rng : TfwPcntRanges} {r q b i j k w w' n lo m p cnt : Nat} {c : CalcState}
  {rngs : List TfwPcntRanges} {val : Nat → Nat} {rTimes : List Nat}

lemma Laid.apart (h : Laid rng) (hrq : r < q) (hq : q < 4) :
    (rng.ctl r).end_ < (rng.ctl q).begin := by
  have h0 := h.gap 0 (by omega)
  have h1 := h.gap 1 (by omega)
  have h2 := h.gap 2 (by omega)
  have s1 := h.span 1 (by omega)
  have s2 := h.span 2 (by omega)
  simp only [Nat.zero_add, Nat.reduceAdd] at h0 h1 h2
  have hcases : (r = 0 ∧ q = 1) ∨ (r = 0 ∧ q = 2) ∨ (r = 0 ∧ q = 3) ∨ (r = 1 ∧ q = 2) ∨
      (r = 1 ∧ q = 3) ∨ (r = 2 ∧ q = 3) := by omega
  obtain ⟨rfl, rfl⟩ | ⟨rfl, rfl⟩ | ⟨rfl, rfl⟩ | ⟨rfl, rfl⟩ | ⟨rfl, rfl⟩ | ⟨rfl, rfl⟩ := hcases
  all_goals omega

lemma Laid.begin_pos (h : Laid rng) (hr : r < 4) : 0 < (rng.ctl r).begin := by
  by_cases h0 : r = 0
  · rw [h0, h.first]
    decide
  · have := h.apart (Nat.pos_of_ne_zero h0) hr
    omega

lemma bcktValue_eq (h : Laid rng) (hr : r < 4) (hb : b < 16) :
    bcktValue rng r b = (rng.ctl r).begin + b * 2 ^ (rng.ctl r).order := by
  have hspan := h.span r hr
  have hend := h.end_lt hr
  have hle : b * 2 ^ (rng.ctl r).order ≤ 15 * 2 ^ (rng.ctl r).order :=
    Nat.mul_le_mul_right _ (by omega)
  rw [statsRspan] at hspan
  exact uint_of_lt (by omega)

lemma bcktValue_le_end (h : Laid rng) (hr : r < 4) (hb : b < 16) :
    bcktValue rng r b ≤ (rng.ctl r).end_ := by
  have hle : b * 2 ^ (rng.ctl r).order ≤ 15 * 2 ^ (rng.ctl r).order :=
    Nat.mul_le_mul_right _ (by omega)
  rw [bcktValue_eq h hr hb, h.span r hr, statsRspan]
  omega

lemma begin_le_bcktValue (h : Laid rng) (hr : r < 4) (hb : b < 16) :
    (rng.ctl r).begin ≤ bcktValue rng r b := by
  rw [bcktValue_eq h hr hb]
  omega

lemma bcktValue_lt (h : Laid rng) (hij : i < j) (hj : j < 64) :
    bcktValue rng (i / 16) (i % 16) < bcktValue rng (j / 16) (j % 16) := by
  by_cases hsame : i / 16 = j / 16
  · rw [hsame, bcktValue_eq h (by omega) (by omega), bcktValue_eq h (by omega) (by omega)]
    have := Nat.mul_lt_mul_of_pos_right (show i % 16 < j % 16 by omega)
      (Nat.two_pow_pos (rng.ctl (j / 16)).order)
    omega
  · have hend := bcktValue_le_end h (show i / 16 < 4 by omega) (show i % 16 < 16 by omega)
    have hgap := h.apart (show i / 16 < j / 16 by omega) (by omega)
    have hbegin := begin_le_bcktValue h (show j / 16 < 4 by omega) (show j % 16 < 16 by omega)
    omega

/-- The end marker `USHRT_MAX` of the cursors. -/
def endMark : Nat := 2 ^ 16 - 1

/-- The buckets of an entry in the order of their sequential numbers, with the values
the cursors show. -/
def bcktStream (rng : TfwPcntRanges) : Stream where
  len := 64
  key k := bcktValue rng (k / 16) (k % 16) % 2 ^ 16
  wt k := rng.cnt (k / 16) (k % 16)

/-- The hits that come in front of all buckets whose values are shown as `x` or more. -/
def hitsFront (rngs : List TfwPcntRanges) (x : Nat) : Nat :=
  (rngs.map (fun rng => (bcktStream rng).front x)).sum

/-- The hits in buckets with a value of at most `w`. -/
def hitsUpTo (rngs : List TfwPcntRanges) (w : Nat) : Nat :=
  (rngs.map (fun rng => ∑ r ∈ Finset.range 4, ∑ b ∈ Finset.range 16,
    if bcktValue rng r b ≤ w then rng.cnt r b else 0)).sum

/-- `w` is the value of a bucket. -/
def IsBcktValue (rngs : List TfwPcntRanges) (w : Nat) : Prop :=
  ∃ rng ∈ rngs, ∃ r < 4, ∃ b < 16, bcktValue rng r b = w

lemma sum_bckts (f : Nat → Nat → Nat) :
    ∑ k ∈ Finset.range 64, f (k / 16) (k % 16)
      = ∑ r ∈ Finset.range 4, ∑ b ∈ Finset.range 16, f r b := by
  refine (SweepLib.sum_groups (fun k => f (k / 16) (k % 16)) 16 4).symm.trans ?_
  refine Finset.sum_congr rfl (fun r _ => Finset.sum_congr rfl (fun b hb => ?_))
  have hb := Finset.mem_range.mp hb
  rw [show (16 * r + b) / 16 = r by omega, show (16 * r + b) % 16 = b by omega]

/-- The hits of one entry in buckets with a value of at most `w`. -/
def upTo (rng : TfwPcntRanges) (w : Nat) : Nat :=
  ∑ k ∈ Finset.range 64,
    if bcktValue rng (k / 16) (k % 16) ≤ w then rng.cnt (k / 16) (k % 16) else 0

lemma hitsUpTo_eq (rngs : List TfwPcntRanges) (w : Nat) :
    hitsUpTo rngs w = (rngs.map (upTo · w)).sum := by
  refine congrArg List.sum (map_congr_left (fun rng _ => ?_))
  exact (sum_bckts (fun r b => if bcktValue rng r b ≤ w then rng.cnt r b else 0)).symm

def allHits (rngs : List TfwPcntRanges) : Nat := (rngs.map hits).sum

lemma before_len (rng : TfwPcntRanges) : (bcktStream rng).before 64 = hits rng :=
  sum_bckts rng.cnt

/-- An entry with the number of the bucket its cursor is at, 64 at the end. -/
abbrev Cursor : Type := Entry × Nat

namespace Cursor

def stream (e : Cursor) : Stream := bcktStream e.1.1

/-- What a cursor shows. -/
def shown (e : Cursor) : Nat := if e.2 < 64 then e.stream.key e.2 else endMark

def state (e : Cursor) : TfwApmRBEState :=
  if e.2 < 64 then
    apmStateSet (bcktValue e.1.1 (e.2 / 16) (e.2 % 16)) e.2 (e.2 / 16) (e.2 % 16)
  else apmStateSet endMark 64 4 16

/-- The hits read so far. -/
def read (e : Cursor) : Nat := e.stream.before e.2

/-- The cursor is at a bucket with hits, or at the end. -/
structure Stands (e : Cursor) : Prop where
  le : e.2 ≤ 64
  found : e.2 < 64 → e.stream.wt e.2 ≠ 0

variable {e : Cursor}

lemma state_v (e : Cursor) : e.state.v = e.shown := by
  rw [state, shown]
  split <;> rfl

lemma state_of_lt (hlt : e.2 < 64) :
    e.state.i = e.2 ∧ e.state.r = e.2 / 16 ∧ e.state.b = e.2 % 16 := by
  rw [state, if_pos hlt]
  refine ⟨Nat.mod_eq_of_lt (by omega), Nat.mod_eq_of_lt (by omega), Nat.mod_eq_of_lt (by omega)⟩

lemma state_i (h : e.2 ≤ 64) : e.state.i = e.2 := by
  by_cases hlt : e.2 < 64
  · exact (state_of_lt hlt).1
  · rw [state, if_neg hlt]
    show 64 % 2 ^ 8 = e.2
    omega

lemma shown_le (e : Cursor) : e.shown ≤ endMark := by
  rw [shown]
  split
  · exact Nat.le_sub_one_of_lt (Nat.mod_lt _ (Nat.two_pow_pos 16))
  · exact Nat.le_refl _

lemma lt_of_shown (hm : m ≠ endMark) (h : e.shown = m) : e.2 < 64 ∧ e.stream.key e.2 = m := by
  rw [shown] at h
  split at h
  next hlt => exact ⟨hlt, h⟩
  next => exact absurd h.symm hm

lemma apmStateFrom_eq (e : Entry) (h : i + n = 64) :
    apmStateFrom e.1 n i = state (e, seek (bcktStream e.1).wt n i) := by
  induction n generalizing i with
  | zero => exact (if_neg (show ¬ i < 64 by omega)).symm
  | succ n ih =>
    rw [apmStateFrom, seek]
    by_cases hzero : e.1.cnt (i / 16) (i % 16) = 0
    · rw [if_pos hzero, if_pos (show (bcktStream e.1).wt i = 0 from hzero), ih (by omega)]
    · rw [if_neg hzero, if_neg (show ¬ (bcktStream e.1).wt i = 0 from hzero), state,
        if_pos (by dsimp only; omega)]

/-- What a turn at value `m` counts of an entry. -/
def taken (m : Nat) (e : Cursor) : Nat := if e.shown = m then e.stream.wt e.2 else 0

/-- Where a turn at value `m` leaves the cursor of an entry. -/
def moved (m : Nat) (e : Cursor) : Cursor := if e.shown = m then (e.1, e.stream.next e.2) else e

lemma moved_fst (m : Nat) (e : Cursor) : (e.moved m).1 = e.1 := by
  rw [moved]
  split <;> rfl

lemma read_moved (m : Nat) (e : Cursor) : (e.moved m).read = e.read + e.taken m := by
  rw [moved, taken]
  split
  · exact e.stream.before_next e.2
  · rfl

lemma Stands.moved (h : e.Stands) (hm : m ≠ endMark) : (e.moved m).Stands := by
  rw [Cursor.moved]
  split
  next hat =>
    obtain ⟨hlt, _⟩ := lt_of_shown hm hat
    obtain ⟨_, hbound, _, _⟩ := seek_spec e.stream.wt (64 - (e.2 + 1)) (e.2 + 1)
    refine ⟨show seek e.stream.wt (64 - (e.2 + 1)) (e.2 + 1) ≤ 64 by omega, fun hnext => ?_⟩
    exact Stream.wt_next_ne_zero hnext hlt
  next => exact h

lemma moved_lt (m : Nat) (e : Cursor) (hm : m ≠ endMark) :
    64 - (e.moved m).2 ≤ 64 - e.2 ∧ (e.shown = m → 64 - (e.moved m).2 < 64 - e.2) := by
  rw [moved]
  split
  next hat =>
    have hnext := e.stream.lt_next e.2
    have hlt := (lt_of_shown hm hat).1
    exact ⟨by dsimp only; omega, fun _ => by dsimp only; omega⟩
  next hne => exact ⟨Nat.le_refl _, fun hat => absurd hat hne⟩

lemma within_moved {x : Nat} (h : e.stream.Within x e.2) (hm : m ≠ endMark) (hlt : m < x) :
    (e.moved m).stream.Within x (e.moved m).2 := by
  rw [moved]
  split
  next hat =>
    obtain ⟨hpos, hkey⟩ := lt_of_shown hm hat
    exact h.advance hpos (by omega)
  next => exact h

/-- A cursor with all values below `x` behind it that shows a value from `x` on. -/
lemma Stands.read_eq {x : Nat} (h : e.Stands) (hin : e.stream.Within x e.2)
    (hge : x ≤ e.shown) : e.read = e.stream.front x := by
  refine hin.before_eq (fun hlt => ⟨h.found hlt, ?_⟩)
  rwa [shown, if_pos (show e.2 < 64 from hlt)] at hge

/-- A bucket in front of the end marker is shown with its value. -/
lemma shown_le_of_value (e : Cursor) {x : Nat} (hx : x < endMark) (hk : k < 64) (hle : e.2 ≤ k)
    (hval : bcktValue e.1.1 (k / 16) (k % 16) ≤ x) :
    e.shown ≤ x ∧ (e.shown = x → e.2 = k ∧ bcktValue e.1.1 (k / 16) (k % 16) = x) := by
  have hmark : endMark = 2 ^ 16 - 1 := rfl
  rw [shown, if_pos (by omega)]
  show bcktValue _ _ _ % 2 ^ 16 ≤ x ∧ (bcktValue _ _ _ % 2 ^ 16 = x → _)
  obtain rfl | hlt := Nat.eq_or_lt_of_le hle
  · rw [Nat.mod_eq_of_lt (by omega)]
    exact ⟨hval, fun heq => ⟨rfl, heq⟩⟩
  · have := bcktValue_lt e.1.2 hlt hk
    rw [Nat.mod_eq_of_lt (by omega)]
    exact ⟨by omega, fun heq => by omega⟩

/-- The turn that reaches `x` leaves no hits up to `x` behind. -/
lemma upTo_le_moved {x : Nat} (hx : x < endMark) (hle : x ≤ m) (hmin : m ≤ e.shown) :
    upTo e.1.1 x ≤ (e.moved m).read := by
  have hmem : ∀ k < 64, bcktValue e.1.1 (k / 16) (k % 16) ≤ x → k < (e.moved m).2 := by
    intro k hk hval
    by_contra hge
    have hfrom : e.2 ≤ k := by
      have := e.stream.lt_next e.2
      rw [moved] at hge
      split at hge
      · dsimp only at hge
        omega
      · omega
    obtain ⟨hshown, heq⟩ := e.shown_le_of_value hx hk hfrom hval
    obtain ⟨rfl, -⟩ := heq (by omega)
    have := e.stream.lt_next e.2
    rw [moved, if_pos (by omega)] at hge
    exact hge this
  show _ ≤ Stream.before _ _
  rw [upTo, ← Finset.sum_filter, Stream.before]
  rw [show (e.moved m).stream = bcktStream e.1.1 from
    congrArg (fun e : Entry => bcktStream e.1) (moved_fst m e)]
  refine Finset.sum_le_sum_of_subset (fun k hk => ?_)
  obtain ⟨hk, hval⟩ := Finset.mem_filter.mp hk
  exact Finset.mem_range.mpr (hmem k (Finset.mem_range.mp hk) hval)

end Cursor

variable {e : Cursor}

open Cursor

lemma vMin_spec (st : List TfwApmRBEState) :
    (∀ s ∈ st, vMin st ≤ s.v) ∧ (vMin st = 2 ^ 16 - 1 ∨ ∃ s ∈ st, s.v = vMin st) := by
  have hgen : ∀ (st : List TfwApmRBEState) (m : Nat),
      st.foldl (fun m s => if s.v < m then s.v else m) m ≤ m ∧
      (∀ s ∈ st, st.foldl (fun m s => if s.v < m then s.v else m) m ≤ s.v) ∧
      (st.foldl (fun m s => if s.v < m then s.v else m) m = m ∨
        ∃ s ∈ st, s.v = st.foldl (fun m s => if s.v < m then s.v else m) m) := by
    intro st
    induction st with
    | nil => exact fun m => ⟨Nat.le_refl m, fun s hs => absurd hs not_mem_nil, .inl rfl⟩
    | cons s st ih =>
      intro m
      obtain ⟨hle, hall, hex⟩ := ih (if s.v < m then s.v else m)
      have hmin : (if s.v < m then s.v else m) ≤ m ∧ (if s.v < m then s.v else m) ≤ s.v := by
        split <;> omega
      rw [foldl_cons]
      refine ⟨Nat.le_trans hle hmin.1, ?_, ?_⟩
      · intro s' hs'
        obtain rfl | hs' := mem_cons.mp hs'
        · exact Nat.le_trans hle hmin.2
        · exact hall s' hs'
      · obtain heq | ⟨s', hs', heq⟩ := hex
        · by_cases hlt : s.v < m
          · rw [if_pos hlt] at heq ⊢
            exact .inr ⟨s, mem_cons_self, heq.symm⟩
          · rw [if_neg hlt] at heq ⊢
            exact .inl heq
        · exact .inr ⟨s', mem_cons_of_mem s hs', heq⟩
  obtain ⟨_, hall, hex⟩ := hgen st (2 ^ 16 - 1)
  exact ⟨hall, hex⟩

lemma takeMin_eq (hm : m ≠ endMark) :
    ∀ (es : List Cursor) (cnt : Nat), (∀ e ∈ es, e.Stands) →
      cnt + (es.map (taken m)).sum < 2 ^ 64 →
      takeMin m (es.map (fun e => e.1.1)) (es.map state) cnt
        = some (cnt + (es.map (taken m)).sum, (es.map (moved m)).map state) := by
  intro es
  induction es with
  | nil => exact fun cnt _ _ => rfl
  | cons e es ih =>
    intro cnt hes hsum
    simp only [map_cons, sum_cons] at hsum ⊢
    rw [takeMin, state_v]
    by_cases hat : e.shown = m
    · obtain ⟨hlt, _⟩ := lt_of_shown hm hat
      obtain ⟨hi, hr, hb⟩ := state_of_lt hlt
      have htake : taken m e = e.1.1.cnt (e.2 / 16) (e.2 % 16) := if_pos hat
      have hmove : state (moved m e) = apmStateNext e.1.1 (e.2 + 1) := by
        rw [moved, if_pos hat, apmStateNext, apmStateFrom_eq e.1 (by omega)]
        rfl
      rw [if_neg (not_not.mpr hat), if_neg (by omega), hi, hr, hb,
        Nat.mod_eq_of_lt (show e.2 + 1 < 2 ^ 8 by omega), ← htake, ← hmove,
        ulong_of_lt (by omega),
        ih (cnt + taken m e) (fun e' he' => hes e' (mem_cons_of_mem e he')) (by omega),
        Option.map_some, Nat.add_assoc]
    · rw [taken, if_neg hat, Nat.zero_add] at hsum
      rw [if_pos hat, ih cnt (fun e' he' => hes e' (mem_cons_of_mem e he')) hsum,
        Option.map_some, taken, if_neg hat, Nat.zero_add, moved, if_neg hat]

theorem pval_eq {totalCnt : Nat} (h : totalCnt * 99 < 2 ^ 64) (hp : p < 8) :
    pval totalCnt p = totalCnt * pstatsIth p / 100 := by
  have hith : pstatsIth p ≤ 99 := by
    revert p
    decide
  have := Nat.mul_le_mul_left totalCnt hith
  rw [pval, ulong_of_lt (by omega)]

lemma pval_mono {totalCnt : Nat} (h : totalCnt * 99 < 2 ^ 64) (h3 : 3 ≤ p) (hpq : p ≤ q)
    (hq : q < 8) : pval totalCnt p ≤ pval totalCnt q := by
  have hith : ∀ q < 8, ∀ p < 8, 3 ≤ p → p ≤ q → pstatsIth p ≤ pstatsIth q := by decide
  rw [pval_eq h (by omega), pval_eq h hq]
  exact Nat.div_le_div_right (Nat.mul_le_mul_left totalCnt (hith q hq p (by omega) h3 hpq))

lemma zeroPvals_spec {totalCnt : Nat} (h : totalCnt * 99 < 2 ^ 64) (val : Nat → Nat) :
    3 ≤ (zeroPvals totalCnt val).1 ∧ (zeroPvals totalCnt val).1 ≤ 8 ∧
      (∀ q, 3 ≤ q → q < (zeroPvals totalCnt val).1 →
        pval totalCnt q = 0 ∧ (zeroPvals totalCnt val).2 q = 0) ∧
      ((zeroPvals totalCnt val).1 < 8 → pval totalCnt (zeroPvals totalCnt val).1 ≠ 0) := by
  have hgen : ∀ n ≤ 5, ∀ pv, (List.range' 3 n).foldl (fun pv i => if pval totalCnt i = 0 then
        (pv.1 + 1, update pv.2 pv.1 0) else pv) (3, val) = pv →
      3 ≤ pv.1 ∧ pv.1 ≤ 3 + n ∧
        (∀ q, 3 ≤ q → q < pv.1 → pval totalCnt q = 0 ∧ pv.2 q = 0) ∧
        (pv.1 < 3 + n → pval totalCnt pv.1 ≠ 0) := by
    intro n
    induction n with
    | zero =>
      rintro _ pv rfl
      exact ⟨Nat.le_refl 3, Nat.le_refl 3, fun q h3 hq => absurd h3 (Nat.not_le_of_lt hq),
        fun h => absurd h (Nat.lt_irrefl 3)⟩
    | succ n ih =>
      intro hn pv hpv
      rw [range'_1_concat, foldl_append] at hpv
      obtain ⟨h3, hle, hzero, hne⟩ := ih (by omega) _ rfl
      generalize (List.range' 3 n).foldl _ (3, val) = pv₀ at hpv h3 hle hzero hne
      simp only [foldl_cons, foldl_nil] at hpv
      split at hpv
      next hnew =>
        have hp : pv₀.1 = 3 + n := by
          by_contra hlt
          have := pval_mono h h3 (show pv₀.1 ≤ 3 + n by omega) (by omega)
          exact hne (by omega) (by omega)
        subst hpv
        refine ⟨by dsimp only; omega, by dsimp only; omega, ?_, fun hlt => ?_⟩
        · intro q hq3 hq
          dsimp only at hq ⊢
          by_cases hqp : q = pv₀.1
          · rw [hqp, update_self, hp]
            exact ⟨hnew, rfl⟩
          · rw [update_of_ne hqp]
            exact hzero q hq3 (by omega)
        · omega
      next hnew =>
        subst hpv
        refine ⟨h3, by omega, hzero, fun hlt => ?_⟩
        by_cases hp : pv₀.1 = 3 + n
        · rw [hp]
          exact hnew
        · exact hne (by omega)
  exact hgen 5 (Nat.le_refl 5) _ rfl

lemma fillPvals_spec (totalCnt cnt v : Nat) (n p : Nat) (val : Nat → Nat) :
    p ≤ (fillPvals totalCnt cnt v n p val).1 ∧ (fillPvals totalCnt cnt v n p val).1 ≤ p + n ∧
      (∀ q, p ≤ q → q < (fillPvals totalCnt cnt v n p val).1 →
        pval totalCnt q ≤ cnt ∧ (fillPvals totalCnt cnt v n p val).2 q = v) ∧
      ((fillPvals totalCnt cnt v n p val).1 < p + n →
        cnt < pval totalCnt (fillPvals totalCnt cnt v n p val).1) ∧
      (∀ q < p, (fillPvals totalCnt cnt v n p val).2 q = val q) := by
  induction n generalizing p val with
  | zero => exact ⟨Nat.le_refl p, Nat.le_refl p, fun q hp hq => absurd hp (Nat.not_le_of_lt hq),
      fun h => absurd h (Nat.lt_irrefl p), fun _ _ => rfl⟩
  | succ n ih =>
    rw [fillPvals]
    split
    next hle =>
      obtain ⟨hp, hbound, hfill, hstop, hkeep⟩ := ih (p + 1) (update val p v)
      refine ⟨by omega, by omega, ?_, fun hlt => hstop (by omega), ?_⟩
      · intro q hpq hq
        by_cases hqp : q = p
        · subst hqp
          rw [hkeep q (by omega), update_self]
          exact ⟨hle, rfl⟩
        · exact hfill q (by omega) hq
      · intro q hq
        rw [hkeep q (by omega), update_of_ne (by omega)]
    next hgt =>
      exact ⟨Nat.le_refl p, by dsimp only; omega,
        fun q hp hq => absurd hp (Nat.not_le_of_lt hq), fun _ => Nat.lt_of_not_le hgt,
        fun _ _ => rfl⟩

/-- `v` is the smallest bucket value with enough hits up to it for percentile `p`. -/
def Reaches (rngs : List TfwPcntRanges) (totalCnt p v : Nat) : Prop :=
  IsLeast { w | IsBcktValue rngs w ∧ totalCnt * pstatsIth p / 100 ≤ hitsUpTo rngs w } v

/-- The percentiles reported: they do not decrease, and each one that is not zero is
the smallest bucket value that reaches it. -/
structure PcntsRight (rngs : List TfwPcntRanges) (totalCnt : Nat) (val : Nat → Nat) : Prop where
  mono : ∀ p q, 3 ≤ p → p ≤ q → q < 8 → val p ≤ val q
  least : ∀ p, 3 ≤ p → p < 8 → val p ≠ 0 → Reaches rngs totalCnt p (val p)

/-- A bucket with value `w` has hits. -/
def HasHits (rngs : List TfwPcntRanges) (w : Nat) : Prop :=
  ∃ rng ∈ rngs, ∃ k < 64, bcktValue rng (k / 16) (k % 16) = w ∧ rng.cnt (k / 16) (k % 16) ≠ 0

lemma upTo_pred (hno : ¬ HasHits rngs (w + 1)) : hitsUpTo rngs (w + 1) = hitsUpTo rngs w := by
  rw [hitsUpTo_eq, hitsUpTo_eq]
  refine congrArg List.sum (map_congr_left (fun rng hrng => ?_))
  refine Finset.sum_congr rfl (fun k hk => ?_)
  by_cases hat : bcktValue rng (k / 16) (k % 16) = w + 1
  · have hzero : rng.cnt (k / 16) (k % 16) = 0 := by
      by_contra hne
      exact hno ⟨rng, hrng, k, Finset.mem_range.mp hk, hat, hne⟩
    rw [hzero, ite_self, ite_self]
  · exact if_congr (by omega) rfl rfl

lemma exists_hasHits (hne : hitsUpTo rngs w ≠ 0) :
    ∃ v ≤ w, HasHits rngs v ∧ hitsUpTo rngs v = hitsUpTo rngs w := by
  induction w with
  | zero =>
    refine ⟨0, Nat.le_refl 0, ?_, rfl⟩
    by_contra hno
    refine hne ?_
    rw [hitsUpTo_eq]
    refine sum_eq_zero (fun x hx => ?_)
    obtain ⟨rng, hrng, rfl⟩ := mem_map.mp hx
    refine Finset.sum_eq_zero (fun k hk => ?_)
    split
    next hle =>
      by_contra hcnt
      exact hno ⟨rng, hrng, k, Finset.mem_range.mp hk, by omega, hcnt⟩
    next => rfl
  | succ w ih =>
    by_cases hat : HasHits rngs (w + 1)
    · exact ⟨w + 1, Nat.le_refl _, hat, rfl⟩
    · rw [upTo_pred hat] at hne ⊢
      obtain ⟨v, hle, hv⟩ := ih hne
      exact ⟨v, by omega, hv⟩

lemma Reaches.hasHits {totalCnt v : Nat} (h : Reaches rngs totalCnt p v)
    (hne : totalCnt * pstatsIth p / 100 ≠ 0) : HasHits rngs v := by
  have hreach := h.1.2
  obtain ⟨w, hle, hw, heq⟩ := exists_hasHits (show hitsUpTo rngs v ≠ 0 by omega)
  obtain ⟨rng, hrng, k, hk, hval, hcnt⟩ := hw
  have hleast : v ≤ w :=
    h.2 ⟨⟨rng, hrng, k / 16, by omega, k % 16, by omega, hval⟩, by omega⟩
  obtain rfl : v = w := by omega
  exact ⟨rng, hrng, k, hk, hval, hcnt⟩

/-- What is known of the value given to a percentile. -/
structure Found (rngs : List TfwPcntRanges) (totalCnt q v : Nat) : Prop where
  lt : v < endMark
  front : hitsFront rngs v < pval totalCnt q
  unique : ∀ w < endMark, Reaches rngs totalCnt q w → hitsFront rngs w < pval totalCnt q → v = w

/-- The values of the percentiles before `p`. -/
def Filled (rngs : List TfwPcntRanges) (totalCnt p : Nat) (val : Nat → Nat) : Prop :=
  ∀ q, 3 ≤ q → q < p →
    if pval totalCnt q = 0 then val q = 0 else Found rngs totalCnt q (val q)

/-- The loop between two turns: for each value the cursors have met smaller ones only,
or they are past it and the hits up to it are counted. -/
structure Merging (rngs : List TfwPcntRanges) (totalCnt : Nat) (es : List Cursor)
    (c : CalcState) : Prop where
  entries : es.map (fun e => e.1.1) = rngs
  cursors : c.st = es.map state
  stands : ∀ e ∈ es, e.Stands
  count : c.cnt = (es.map read).sum
  marked : ∀ e ∈ es, e.stream.Within endMark e.2
  levels : ∀ x < endMark, (∀ e ∈ es, e.stream.Within x e.2) ∨
    hitsFront rngs x ≤ c.cnt ∧ hitsUpTo rngs x ≤ c.cnt
  from3 : 3 ≤ c.p
  upto8 : c.p ≤ 8
  wanted : c.p < 8 → c.cnt < pval totalCnt c.p
  done : ∀ q, 3 ≤ q → q < c.p → pval totalCnt q ≤ c.cnt
  values : Filled rngs totalCnt c.p c.val

section Loop

variable {es : List Cursor} {totalCnt x : Nat}

lemma sum_read_le (hes : ∀ e ∈ es, e.2 ≤ 64) :
    (es.map read).sum ≤ allHits (es.map (fun e => e.1.1)) := by
  rw [allHits, map_map]
  refine sum_le_sum (fun e he => ?_)
  show e.stream.before e.2 ≤ hits e.1.1
  rw [← before_len]
  exact Finset.sum_le_sum_of_subset (Finset.range_subset_range.mpr (hes e he))

lemma sum_read_le_front (hin : ∀ e ∈ es, e.stream.Within x e.2) :
    (es.map read).sum ≤ hitsFront (es.map (fun e => e.1.1)) x := by
  rw [hitsFront, map_map]
  exact sum_le_sum (fun e he => (hin e he).before_le)

lemma sum_read_eq_front (hes : ∀ e ∈ es, e.Stands) (hin : ∀ e ∈ es, e.stream.Within x e.2)
    (hge : ∀ e ∈ es, x ≤ e.shown) :
    (es.map read).sum = hitsFront (es.map (fun e => e.1.1)) x := by
  rw [hitsFront, map_map]
  exact congrArg List.sum (map_congr_left (fun e he => (hes e he).read_eq (hin e he) (hge e he)))

lemma sum_read_moved (m : Nat) (es : List Cursor) :
    ((es.map (moved m)).map read).sum = (es.map read).sum + (es.map (taken m)).sum := by
  rw [map_map, ← sum_map_add]
  exact congrArg List.sum (map_congr_left (fun e _ => read_moved m e))

lemma entries_moved (m : Nat) (es : List Cursor) :
    (es.map (moved m)).map (fun e => e.1.1) = es.map (fun e => e.1.1) := by
  rw [map_map]
  exact map_congr_left (fun e _ => congrArg Subtype.val (moved_fst m e))

def remaining (c : CalcState) : Nat := (c.st.map (fun s => 64 - s.i)).sum

lemma Merging.remaining_eq (h : Merging rngs totalCnt es c) :
    remaining c = (es.map (fun e => 64 - e.2)).sum := by
  rw [remaining, h.cursors, map_map]
  refine congrArg List.sum (map_congr_left (fun e he => ?_))
  show 64 - e.state.i = 64 - e.2
  rw [state_i (h.stands e he).le]

/-- The turns go by the least value shown. -/
lemma Merging.vMin_spec (h : Merging rngs totalCnt es c) :
    (∀ e ∈ es, vMin c.st ≤ e.shown) ∧
      (vMin c.st = endMark ∨ vMin c.st < endMark ∧ ∃ e ∈ es, e.shown = vMin c.st) := by
  obtain ⟨hall, hex⟩ := Apm.vMin_spec c.st
  rw [h.cursors] at hall hex ⊢
  refine ⟨fun e he => ?_, ?_⟩
  · rw [← state_v]
    exact hall e.state (mem_map_of_mem he)
  · obtain heq | ⟨s, hs, hv⟩ := hex
    · exact .inl heq
    · obtain ⟨e, he, rfl⟩ := mem_map.mp hs
      rw [state_v] at hv
      have hle := e.shown_le
      rw [hv] at hle
      exact (Nat.eq_or_lt_of_le hle).imp_right (fun hlt => ⟨hlt, e, he, hv⟩)

/-- No more hits come in front of the value of a turn than have been counted. -/
lemma Merging.front_le (h : Merging rngs totalCnt es c) (hm : m < endMark)
    (hmin : ∀ e ∈ es, m ≤ e.shown) : hitsFront rngs m ≤ c.cnt := by
  obtain hin | ⟨hfront, _⟩ := h.levels m hm
  · rw [h.count, ← h.entries]
    exact Nat.le_of_eq (sum_read_eq_front h.stands hin hmin).symm
  · exact hfront

lemma Merging.levels_moved (h : Merging rngs totalCnt es c) (hm : m < endMark)
    (hmin : ∀ e ∈ es, m ≤ e.shown) (hx : x < endMark) :
    (∀ e ∈ es.map (moved m), e.stream.Within x e.2) ∨
      hitsFront rngs x ≤ ((es.map (moved m)).map read).sum ∧
        hitsUpTo rngs x ≤ ((es.map (moved m)).map read).sum := by
  have hgrow : c.cnt ≤ ((es.map (moved m)).map read).sum := by
    rw [sum_read_moved, ← h.count]
    exact Nat.le_add_right _ _
  obtain hin | ⟨hfront, hupTo⟩ := h.levels x hx
  · by_cases hlt : m < x
    · refine .inl (fun e' he' => ?_)
      obtain ⟨e, he, rfl⟩ := mem_map.mp he'
      exact within_moved (hin e he) hm.ne hlt
    · refine .inr ⟨?_, ?_⟩
      · refine Nat.le_trans (Nat.le_of_eq ?_) hgrow
        rw [h.count, ← h.entries]
        refine (sum_read_eq_front h.stands hin (fun e he => ?_)).symm
        have := hmin e he
        omega
      · rw [hitsUpTo_eq, ← h.entries, map_map, map_map]
        exact sum_le_sum (fun e he => upTo_le_moved hx (by omega) (hmin e he))
  · exact .inr ⟨by omega, by omega⟩

/-- A percentile that a turn at `m` reaches has no other right value than `m`. -/
lemma Merging.found (h : Merging rngs totalCnt es c) (ht : totalCnt * 99 < 2 ^ 64)
    (hp : c.p ≤ q) (hq : q < 8) (hm : m < endMark) (hmin : ∀ e ∈ es, m ≤ e.shown)
    (henough : pval totalCnt q ≤ ((es.map (moved m)).map read).sum) :
    Found rngs totalCnt q m := by
  have hwanted := h.wanted (by omega)
  have hmono := pval_mono ht h.from3 hp hq
  have hfront := h.front_le hm hmin
  refine ⟨hm, by omega, fun w hw hreach hbefore => ?_⟩
  have hpval := pval_eq ht hq
  have hupTo := hreach.1.2
  obtain hin | ⟨_, hcounted⟩ := h.levels w hw
  · obtain hlt | heq | hgt := Nat.lt_trichotomy m w
    · have hwithin : ∀ e ∈ es.map (moved m), e.stream.Within w e.2 := by
        intro e' he'
        obtain ⟨e, he, rfl⟩ := mem_map.mp he'
        exact within_moved (hin e he) hm.ne hlt
      have hle := sum_read_le_front hwithin
      rw [entries_moved, h.entries] at hle
      omega
    · exact heq
    · obtain ⟨rng, hrng, k, hk, hval, hcnt⟩ := hreach.hasHits (by omega)
      rw [← h.entries] at hrng
      obtain ⟨e, he, rfl⟩ := mem_map.mp hrng
      have hfrom : e.2 ≤ k := by
        by_contra hlt
        have hkey : bcktValue e.1.1 (k / 16) (k % 16) % 2 ^ 16 < w :=
          (hin e he).below k (by omega) hcnt
        have hmark : endMark = 2 ^ 16 - 1 := rfl
        rw [hval, Nat.mod_eq_of_lt (by omega)] at hkey
        omega
      have hle := (e.shown_le_of_value hw hk hfrom (Nat.le_of_eq hval)).1
      have := hmin e he
      omega
  · omega

/-- Once the cursors have moved on from `m`, the percentiles reached get that value. -/
theorem Merging.fill (h : Merging rngs totalCnt es c) (ht : totalCnt * 99 < 2 ^ 64)
    (hp : c.p < 8) (hm : m < endMark) (hmin : ∀ e ∈ es, m ≤ e.shown)
    (hcnt : cnt = ((es.map (moved m)).map read).sum) :
    Merging rngs totalCnt (es.map (moved m))
      ⟨(fillPvals totalCnt cnt m (8 - c.p) c.p c.val).1, cnt, (es.map (moved m)).map state,
        (fillPvals totalCnt cnt m (8 - c.p) c.p c.val).2⟩ := by
  obtain ⟨hp', hp8, hfill, hstop, hkeep⟩ := fillPvals_spec totalCnt cnt m (8 - c.p) c.p c.val
  generalize fillPvals totalCnt cnt m (8 - c.p) c.p c.val = pv at hp' hp8 hfill hstop hkeep ⊢
  have hgrow : c.cnt ≤ cnt := by
    rw [hcnt, sum_read_moved, ← h.count]
    exact Nat.le_add_right _ _
  have hpv8 : pv.1 ≤ 8 := by omega
  refine ⟨(entries_moved m es).trans h.entries, rfl, ?_, hcnt, ?_, ?_,
    Nat.le_trans h.from3 hp', hpv8, ?_, ?_, ?_⟩
  · intro e' he'
    obtain ⟨e, he, rfl⟩ := mem_map.mp he'
    exact (h.stands e he).moved hm.ne
  · intro e' he'
    obtain ⟨e, he, rfl⟩ := mem_map.mp he'
    exact within_moved (h.marked e he) hm.ne hm
  · intro x hx
    rw [hcnt]
    exact h.levels_moved hm hmin hx
  · intro hlt
    change pv.1 < 8 at hlt
    exact hstop (by omega)
  · intro q hq3 hq
    show pval totalCnt q ≤ cnt
    by_cases hqp : q < c.p
    · exact Nat.le_trans (h.done q hq3 hqp) hgrow
    · exact (hfill q (by omega) hq).1
  · intro q hq3 hq
    change q < pv.1 at hq
    show if pval totalCnt q = 0 then pv.2 q = 0 else Found rngs totalCnt q (pv.2 q)
    by_cases hqp : q < c.p
    · rw [hkeep q hqp]
      exact h.values q hq3 hqp
    · obtain ⟨hreach, heq⟩ := hfill q (by omega) hq
      have hfound := h.found ht (by omega) (by omega) hm hmin (hcnt ▸ hreach)
      have := hfound.front
      rw [if_neg (by omega), heq]
      exact hfound

lemma Merging.turn (h : Merging rngs totalCnt es c) (ht : totalCnt * 99 < 2 ^ 64)
    (hall : allHits rngs < 2 ^ 64) (hp : c.p < 8) :
    (calcTurn rngs totalCnt c = .inr none ∧ c.cnt = hitsFront rngs endMark) ∨
      ∃ c' m, calcTurn rngs totalCnt c = .inl c' ∧
        Merging rngs totalCnt (es.map (moved m)) c' ∧ remaining c' < remaining c := by
  rw [calcTurn, if_pos hp]
  obtain ⟨hmin, hend | ⟨hm, hat⟩⟩ := h.vMin_spec
  · refine .inl ⟨if_pos hend, ?_⟩
    rw [h.count, ← h.entries]
    exact sum_read_eq_front h.stands h.marked (fun e he => hend ▸ hmin e he)
  · generalize vMin c.st = m at hmin hm hat
    have hsum := sum_read_moved m es
    rw [← h.count] at hsum
    have hmerged := h.fill ht hp hm hmin hsum.symm
    have hbound := sum_read_le (fun e he => (hmerged.stands e he).le)
    rw [entries_moved, h.entries, hsum] at hbound
    refine .inr ⟨_, m, ?_, hmerged, ?_⟩
    · rw [if_neg (show m ≠ 2 ^ 16 - 1 from hm.ne), ← h.entries, h.cursors,
        takeMin_eq hm.ne es c.cnt h.stands (by omega)]
    · rw [hmerged.remaining_eq, h.remaining_eq, map_map]
      obtain ⟨e, he, hat⟩ := hat
      exact sum_lt_sum _ _ (fun e _ => (moved_lt m e hm.ne).1)
        ⟨e, he, (moved_lt m e hm.ne).2 hat⟩

/-- The cursors as `tfw_apm_prnctl_calc` sets them up. -/
def startAt (e : Entry) : Cursor := (e, seek (bcktStream e.1).wt 64 0)

lemma startAt_spec (e : Entry) :
    (startAt e).Stands ∧ (startAt e).read = 0 ∧
      ∀ x, (startAt e).stream.Within x (startAt e).2 := by
  obtain ⟨_, hbound, hskip, hfound⟩ := seek_spec (bcktStream e.1).wt 64 0
  rw [Nat.zero_add] at hbound hfound
  refine ⟨⟨hbound, hfound⟩, ?_, fun x => ⟨hbound, fun k hk hne => ?_⟩⟩
  · show (bcktStream e.1).before _ = 0
    exact Finset.sum_eq_zero (fun k hk => hskip k (Nat.zero_le k) (Finset.mem_range.mp hk))
  · exact absurd (hskip k (Nat.zero_le k) hk) hne

lemma merging_start (es : List Entry) (val : Nat → Nat) (ht : totalCnt * 99 < 2 ^ 64) :
    Merging (es.map Subtype.val) totalCnt (es.map startAt)
      ⟨(zeroPvals totalCnt val).1, 0, (es.map Subtype.val).map (fun rng => apmStateNext rng 0),
        (zeroPvals totalCnt val).2⟩ := by
  obtain ⟨h3, h8, hzero, hne⟩ := zeroPvals_spec ht val
  have hstart : ∀ e ∈ es.map startAt, e.Stands ∧ e.read = 0 ∧ ∀ x, e.stream.Within x e.2 := by
    intro e' he'
    obtain ⟨e, _, rfl⟩ := mem_map.mp he'
    exact startAt_spec e
  refine ⟨?_, ?_, fun e he => (hstart e he).1, ?_, fun e he => (hstart e he).2.2 _,
    fun x _ => .inl (fun e he => (hstart e he).2.2 x), h3, h8,
    fun hlt => Nat.pos_of_ne_zero (hne hlt), ?_, ?_⟩
  · rw [map_map]
    rfl
  · rw [map_map, map_map]
    exact map_congr_left (fun e _ => apmStateFrom_eq e rfl)
  · refine (sum_eq_zero (fun x hx => ?_)).symm
    obtain ⟨e, he, rfl⟩ := mem_map.mp hx
    exact (hstart e he).2.1
  · intro q hq3 hq
    exact Nat.le_of_eq (hzero q hq3 hq).1
  · intro q hq3 hq
    obtain ⟨hpval, hval⟩ := hzero q hq3 hq
    rw [if_pos hpval]
    exact hval

end Loop

/-- The merge ends: with a value for each percentile if the hits in front of the end
marks reach the last one, with a failed check if they do not. -/
theorem prnctlPcnts_spec {totalCnt : Nat} (val : Nat → Nat) (hlaid : ∀ rng ∈ rngs, Laid rng)
    (ht : totalCnt * 99 < 2 ^ 64) (hall : allHits rngs < 2 ^ 64) :
    (pval totalCnt 7 ≤ hitsFront rngs endMark ∧
        ∃ val', prnctlPcnts rngs totalCnt val = some val' ∧ Filled rngs totalCnt 8 val') ∨
      (hitsFront rngs endMark < pval totalCnt 7 ∧ prnctlPcnts rngs totalCnt val = none) := by
  obtain ⟨es, rfl⟩ : ∃ es : List Entry, rngs = es.map Subtype.val :=
    ⟨rngs.attachWith Laid hlaid, (attachWith_map_subtype_val hlaid).symm⟩
  have hstart := merging_start es val ht
  have hturn : ∀ c c', (∃ es', Merging (es.map Subtype.val) totalCnt es' c) →
      calcTurn (es.map Subtype.val) totalCnt c = .inl c' →
      (∃ es', Merging (es.map Subtype.val) totalCnt es' c') ∧ remaining c' < remaining c := by
    rintro c c' ⟨es', hm⟩ hstep
    have hp : c.p < 8 := by
      by_contra hp
      rw [calcTurn, if_neg hp] at hstep
      cases hstep
    obtain ⟨hbug, _⟩ | ⟨c'', m, hnext, hm', hlt⟩ := hm.turn ht hall hp
    · cases hbug.symm.trans hstep
    · obtain rfl := Sum.inl.inj (hnext.symm.trans hstep)
      exact ⟨⟨_, hm'⟩, hlt⟩
  have hremain : remaining ⟨(zeroPvals totalCnt val).1, 0,
      (es.map Subtype.val).map (fun rng => apmStateNext rng 0), (zeroPvals totalCnt val).2⟩
        < 64 * (es.map Subtype.val).length + 1 := by
    rw [hstart.remaining_eq, map_map, length_map]
    have hle := sum_le_card_nsmul (es.map ((fun e => 64 - e.2) ∘ startAt)) 64 (by
      intro x hx
      obtain ⟨e, _, rfl⟩ := mem_map.mp hx
      exact Nat.sub_le 64 _)
    rw [length_map, Nat.nsmul_eq_mul] at hle
    omega
  obtain ⟨r, hiter, hends⟩ := iterate_ends hturn ⟨_, hstart⟩ hremain
  rw [show prnctlPcnts (es.map Subtype.val) totalCnt val = r by
    rw [prnctlPcnts]
    simp only [hiter]
    rfl]
  refine hends.invariant (I := fun c => ∃ es', Merging (es.map Subtype.val) totalCnt es' c)
    (Q := fun r => (pval totalCnt 7 ≤ hitsFront (es.map Subtype.val) endMark ∧
        ∃ val', r = some val' ∧ Filled (es.map Subtype.val) totalCnt 8 val') ∨
      (hitsFront (es.map Subtype.val) endMark < pval totalCnt 7 ∧ r = none))
    (fun c c' hm hstep => (hturn c c' hm hstep).1) ?_ ⟨_, hstart⟩
  rintro c r ⟨es', hm⟩ hstep
  by_cases hp : c.p < 8
  · obtain ⟨hbug, hcnt⟩ | ⟨c', m, hnext, _⟩ := hm.turn ht hall hp
    · obtain rfl := Sum.inr.inj (hbug.symm.trans hstep)
      have hwanted := hm.wanted hp
      have := pval_mono ht hm.from3 (show c.p ≤ 7 by omega) (by omega)
      exact .inr ⟨by omega, rfl⟩
    · cases hnext.symm.trans hstep
  · rw [calcTurn, if_neg hp] at hstep
    obtain rfl := Sum.inr.inj hstep
    have hp8 : c.p = 8 := Nat.le_antisymm hm.upto8 (Nat.le_of_not_lt hp)
    refine .inl ⟨?_, c.val, rfl, hp8 ▸ hm.values⟩
    refine Nat.le_trans (hm.done 7 (by omega) (by omega)) ?_
    rw [hm.count, ← hm.entries]
    exact sum_read_le_front hm.marked

theorem prnctlSummary_pcnt (rngs : List TfwPcntRanges) (val : Nat → Nat) (hp : 3 ≤ p) :
    prnctlSummary rngs val p = val p := by
  have h0 : p ≠ idxMin := by rw [idxMin]; omega
  have h1 : p ≠ idxMax := by rw [idxMax]; omega
  have h2 : p ≠ idxAvg := by rw [idxAvg]; omega
  simp only [prnctlSummary]
  split
  · rw [update_of_ne h2, update_of_ne h0, update_of_ne h1]
  · rw [update_of_ne h0, update_of_ne h1]

/-- `total_cnt`: the response times recorded in all entries. -/
def totalCnt (rngs : List TfwPcntRanges) : Nat := (rngs.map TfwPcntRanges.totCnt).sum

/-- Each percentile with hits to collect has a value below the end marker of the cursors,
and the hits in front of all that is shown as this value or more do not reach it. -/
def MergeFits (rngs : List TfwPcntRanges) : Prop :=
  ∀ p, 3 ≤ p → p < 8 → totalCnt rngs * pstatsIth p / 100 ≠ 0 →
    ∃ v < endMark, Reaches rngs (totalCnt rngs) p v ∧
      hitsFront rngs v < totalCnt rngs * pstatsIth p / 100

lemma upTo_le_front (h : Laid rng) (hw : w < endMark) :
    upTo rng w ≤ (bcktStream rng).front endMark := by
  refine Finset.sum_le_sum (fun k hk => ?_)
  split
  next hle =>
    refine Nat.le_of_eq (if_pos (fun j hj _ => ?_)).symm
    refine Nat.lt_of_le_of_lt (Nat.mod_le _ _) ?_
    obtain rfl | hlt := Nat.eq_or_lt_of_le hj
    · omega
    · have := bcktValue_lt h hlt (Finset.mem_range.mp hk)
      omega
  next => exact Nat.zero_le _

lemma hitsUpTo_le_front (hlaid : ∀ rng ∈ rngs, Laid rng) (hw : w < endMark) :
    hitsUpTo rngs w ≤ hitsFront rngs endMark := by
  rw [hitsUpTo_eq]
  exact sum_le_sum (fun rng hrng => upTo_le_front (hlaid rng hrng) hw)

lemma Reaches.pos {totalCnt v : Nat} (h : Reaches rngs totalCnt p v)
    (hlaid : ∀ rng ∈ rngs, Laid rng) : v ≠ 0 := by
  obtain ⟨rng, hrng, r, hr, b, hb, rfl⟩ := h.1.1
  have := (hlaid rng hrng).begin_pos hr
  have := begin_le_bcktValue (hlaid rng hrng) hr hb
  omega

/-- The calculation reports right percentiles, none of them 0 unless there is nothing to
collect for it, exactly if the merge fits the cursors. -/
theorem percentiles_right_iff (rngs : List TfwPcntRanges) (val : Nat → Nat)
    (hfilled : ∀ rng ∈ rngs, ∃ rTimes, Recorded rng rTimes)
    (ht : totalCnt rngs * 99 < 2 ^ 64) (hall : allHits rngs < 2 ^ 64) :
    (∃ val', prnctlCalc rngs (totalCnt rngs) val = some val' ∧
        PcntsRight rngs (totalCnt rngs) val' ∧
        ∀ p, 3 ≤ p → p < 8 → totalCnt rngs * pstatsIth p / 100 ≠ 0 → val' p ≠ 0) ↔
      MergeFits rngs := by
  have hlaid : ∀ rng ∈ rngs, Laid rng := by
    intro rng hrng
    obtain ⟨rTimes, hrec⟩ := hfilled rng hrng
    exact hrec.laid
  rw [prnctlCalc]
  obtain ⟨_, val', hval, hfill⟩ | ⟨hlt, hnone⟩ := prnctlPcnts_spec val hlaid ht hall
  · have hsum : ∀ p, 3 ≤ p → prnctlSummary rngs val' p = val' p :=
      fun p h3 => prnctlSummary_pcnt rngs val' h3
    rw [hval, Option.map_some]
    constructor
    · rintro ⟨val'', hsome, hright, hpos⟩ p h3 h8 hne
      obtain rfl := Option.some.inj hsome
      have hfound := hfill p h3 h8
      have hleast := hright.least p h3 h8 (hpos p h3 h8 hne)
      rw [pval_eq ht h8, if_neg hne] at hfound
      rw [hsum p h3] at hleast
      exact ⟨val' p, hfound.lt, hleast, pval_eq ht h8 ▸ hfound.front⟩
    · intro hfits
      have hreach : ∀ p, 3 ≤ p → p < 8 → totalCnt rngs * pstatsIth p / 100 ≠ 0 →
          Reaches rngs (totalCnt rngs) p (val' p) := by
        intro p h3 h8 hne
        obtain ⟨v, hv, hleast, hfront⟩ := hfits p h3 h8 hne
        have hfound := hfill p h3 h8
        rw [pval_eq ht h8, if_neg hne] at hfound
        rw [hfound.unique v hv hleast (by rw [pval_eq ht h8]; exact hfront)]
        exact hleast
      have hzero : ∀ p, 3 ≤ p → p < 8 → totalCnt rngs * pstatsIth p / 100 = 0 → val' p = 0 := by
        intro p h3 h8 hz
        have hfound := hfill p h3 h8
        rwa [pval_eq ht h8, if_pos hz] at hfound
      refine ⟨_, rfl, ⟨?_, ?_⟩, ?_⟩
      · intro p q h3 hpq h8
        rw [hsum p h3, hsum q (by omega)]
        by_cases hz : totalCnt rngs * pstatsIth p / 100 = 0
        · rw [hzero p h3 (by omega) hz]
          exact Nat.zero_le _
        · have hmono := pval_mono ht h3 hpq h8
          rw [pval_eq ht (by omega), pval_eq ht h8] at hmono
          obtain ⟨hq, _⟩ := hreach q (by omega) h8 (by omega)
          exact (hreach p h3 (by omega) hz).2 ⟨hq.1, Nat.le_trans hmono hq.2⟩
      · intro p h3 h8 hv
        rw [hsum p h3] at hv ⊢
        exact hreach p h3 h8 (fun hz => hv (hzero p h3 h8 hz))
      · intro p h3 h8 hne
        rw [hsum p h3]
        exact (hreach p h3 h8 hne).pos hlaid
  · rw [hnone]
    constructor
    · rintro ⟨val', hval, _⟩
      cases hval
    · intro hfits
      rw [pval_eq ht (by decide)] at hlt
      obtain ⟨v, hv, hleast, _⟩ := hfits 7 (by decide) (by decide) (by omega)
      have := hitsUpTo_le_front hlaid hv
      have := hleast.1.2
      omega

def entryOf (rTimes : List Nat) : TfwPcntRanges :=
  (rTimes.foldlM statsUpdate rbentInit).getD rbentInit

lemma entryOf_recorded (hlt : ∀ t ∈ rTimes, t < 2 ^ 32)
    (hrun : (rTimes.foldlM statsUpdate rbentInit).isSome) : Recorded (entryOf rTimes) rTimes := by
  obtain ⟨rng, hrng⟩ := Option.isSome_iff_exists.mp hrun
  rw [entryOf, hrng, Option.getD_some]
  exact Recorded.init.updates hlt hrng

lemma reaches_of (hval : IsBcktValue rngs w) {totalCnt : Nat}
    (hle : totalCnt * pstatsIth p / 100 ≤ hitsUpTo rngs w)
    (hlt : ∀ v < w, hitsUpTo rngs v < totalCnt * pstatsIth p / 100) :
    Reaches rngs totalCnt p w := by
  refine ⟨⟨hval, hle⟩, fun v hv => ?_⟩
  by_contra hvw
  exact Nat.not_le_of_lt (hlt v (Nat.lt_of_not_le hvw)) hv.2

/-- A time of 70 s behind the last percentile does no harm. -/
theorem percentiles_right_late :
    ∃ val', prnctlCalc [entryOf [5, 70000], entryOf [20, 5]]
        (totalCnt [entryOf [5, 70000], entryOf [20, 5]]) (fun _ => 0) = some val' ∧
      PcntsRight [entryOf [5, 70000], entryOf [20, 5]]
        (totalCnt [entryOf [5, 70000], entryOf [20, 5]]) val' ∧
      ∀ p, 3 ≤ p → p < 8 →
        totalCnt [entryOf [5, 70000], entryOf [20, 5]] * pstatsIth p / 100 ≠ 0 → val' p ≠ 0 := by
  have hall : ([5, 70000].foldlM statsUpdate rbentInit).isSome ∧
      ([20, 5].foldlM statsUpdate rbentInit).isSome ∧
      totalCnt [entryOf [5, 70000], entryOf [20, 5]] = 4 ∧
      allHits [entryOf [5, 70000], entryOf [20, 5]] = 4 := by
    decide +kernel
  obtain ⟨hfirst, hsecond, htotal, hhits⟩ := hall
  refine (percentiles_right_iff _ _ ?_ (by rw [htotal]; decide) (by rw [hhits]; decide)).mpr ?_
  · intro rng hrng
    obtain rfl | hrng := mem_cons.mp hrng
    · exact ⟨[5, 70000], entryOf_recorded (by decide) hfirst⟩
    · rw [mem_singleton.mp hrng]
      exact ⟨[20, 5], entryOf_recorded (by decide) hsecond⟩
  · have hfive : IsBcktValue [entryOf [5, 70000], entryOf [20, 5]] 5 :=
      ⟨_, mem_cons_self, 0, by decide, 4, by decide, by decide +kernel⟩
    have htwenty : IsBcktValue [entryOf [5, 70000], entryOf [20, 5]] 21 :=
      ⟨_, mem_cons_self, 1, by decide, 2, by decide, by decide +kernel⟩
    have hupTo : hitsUpTo [entryOf [5, 70000], entryOf [20, 5]] 5 = 2 ∧
        hitsUpTo [entryOf [5, 70000], entryOf [20, 5]] 21 = 3 ∧
        (∀ v < 5, hitsUpTo [entryOf [5, 70000], entryOf [20, 5]] v < 2) ∧
        (∀ v < 21, hitsUpTo [entryOf [5, 70000], entryOf [20, 5]] v < 3) ∧
        hitsFront [entryOf [5, 70000], entryOf [20, 5]] 5 = 0 ∧
        hitsFront [entryOf [5, 70000], entryOf [20, 5]] 21 = 2 := by
      decide +kernel
    obtain ⟨h5, h21, hlt5, hlt21, hf5, hf21⟩ := hupTo
    have hranks : ∀ p < 8, 3 ≤ p → 4 * pstatsIth p / 100 = if p = 3 then 2 else 3 := by decide
    intro p h3 h8 _
    have hrank := hranks p h8 h3
    rw [htotal]
    by_cases hp : p = 3
    · rw [if_pos hp] at hrank
      exact ⟨5, by decide, reaches_of hfive (by omega) (by rw [hrank]; exact hlt5), by omega⟩
    · rw [if_neg hp] at hrank
      exact ⟨21, by decide, reaches_of htwenty (by omega) (by rw [hrank]; exact hlt21), by omega⟩

/-- Two response times of 70 s fall in the bucket with value 73837, which the cursor
keeps as 8301. -/
theorem seventy_seconds_truncated :
    [70000, 70000].foldlM statsUpdate rbentInit = some (entryOf [70000, 70000]) ∧
      ¬ ∃ val', prnctlCalc [entryOf [70000, 70000]] (totalCnt [entryOf [70000, 70000]])
          (fun _ => 0) = some val' ∧
        PcntsRight [entryOf [70000, 70000]] (totalCnt [entryOf [70000, 70000]]) val' := by
  have hrun : ([70000, 70000].foldlM statsUpdate rbentInit).isSome ∧
      (prnctlCalc [entryOf [70000, 70000]] (totalCnt [entryOf [70000, 70000]])
        (fun _ => 0)).map (· 3) = some 8301 ∧
      totalCnt [entryOf [70000, 70000]] = 2 ∧ hitsUpTo [entryOf [70000, 70000]] 8301 = 0 := by
    decide +kernel
  obtain ⟨hsome, hcalc, htotal, hnone⟩ := hrun
  constructor
  · obtain ⟨rng, hrng⟩ := Option.isSome_iff_exists.mp hsome
    rw [entryOf, hrng, Option.getD_some]
  · rintro ⟨val', hval, hright⟩
    rw [hval] at hcalc
    have hv : val' 3 = 8301 := Option.some.inj hcalc
    have hleast := (hright.least 3 (by decide) (by decide) (by omega)).1.2
    rw [hv, hnone, htotal] at hleast
    exact absurd hleast (by decide)

end Tempesta.Apm
