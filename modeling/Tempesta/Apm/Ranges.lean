import Tempesta.Lib.Run
import Tempesta.Apm.Rows

/-!
The ranges stay laid out and keep every hit: each range spans fifteen steps of its
order, the ranges follow one another from 1 on, and the counters add up to the
number of hits.
-/

namespace Tempesta.Apm

open List SweepLib IterLib RunLib Option Function

/-- The layout of the four ranges. -/
structure Laid (rng : TfwPcntRanges) : Prop where
  span : ∀ r < 4, (rng.ctl r).end_ = (rng.ctl r).begin + statsRspan (rng.ctl r).order
  first : (rng.ctl 0).begin = 1
  gap : ∀ r < 3, (rng.ctl r).end_ < (rng.ctl (r + 1)).begin
  fits : (rng.ctl 3).end_ < 2 ^ 32

lemma statsRspan_succ (order : Nat) : statsRspan (order + 1) = 2 * statsRspan order := by
  rw [statsRspan, statsRspan, Nat.pow_succ]
  omega

variable {n m rTime r max order begin k x : Nat} {rng rng₁ rng₂ rng₃ : TfwPcntRanges}
  {row : Nat → Nat} {rTimes' : List Nat}

lemma statsRspan_mono (h : m ≤ n) : statsRspan m ≤ statsRspan n :=
  Nat.mul_le_mul_left 15 (Nat.pow_le_pow_right (by omega) h)

variable {rng' : TfwPcntRanges}

lemma Laid.end_lt (h : Laid rng) (hr : r < 4) : (rng.ctl r).end_ < 2 ^ 32 := by
  have h0 := h.gap 0 (by omega)
  have h1 := h.gap 1 (by omega)
  have h2 := h.gap 2 (by omega)
  have s1 := h.span 1 (by omega)
  have s2 := h.span 2 (by omega)
  have s3 := h.span 3 (by omega)
  have hfits := h.fits
  simp only [Nat.zero_add, Nat.reduceAdd] at h0 h1 h2
  obtain rfl | rfl | rfl | rfl : r = 0 ∨ r = 1 ∨ r = 2 ∨ r = 3 := by omega
  · omega
  · omega
  · omega
  · exact hfits

lemma Laid.of_ctl (h : Laid rng) (hctl : rng'.ctl = rng.ctl) : Laid rng' := by
  refine ⟨?_, ?_, ?_, ?_⟩
  · rw [hctl]; exact h.span
  · rw [hctl]; exact h.first
  · rw [hctl]; exact h.gap
  · rw [hctl]; exact h.fits

lemma Laid.setCtl (h : Laid rng) (r : Nat) (pc : TfwPcntCtl)
    (hspan : pc.end_ = pc.begin + statsRspan pc.order) (hfirst : r = 0 → pc.begin = 1)
    (hleft : ∀ q < 3, q + 1 = r → (rng.ctl q).end_ < pc.begin)
    (hright : r < 3 → pc.end_ < (rng.ctl (r + 1)).begin) (hlast : r = 3 → pc.end_ < 2 ^ 32) :
    Laid (rng.setCtl r pc) := by
  refine ⟨?_, ?_, ?_, ?_⟩
  · intro q hq
    by_cases hqr : q = r
    · subst hqr
      simpa using hspan
    · simpa [update_of_ne hqr] using h.span q hq
  · by_cases hr : r = 0
    · subst hr
      simpa using hfirst rfl
    · simpa [update_of_ne (Ne.symm hr)] using h.first
  · intro q hq
    by_cases hqr : q = r
    · subst hqr
      simpa [update_of_ne (show q + 1 ≠ q by omega)] using hright hq
    · by_cases hqr' : q + 1 = r
      · subst hqr'
        simpa [update_of_ne hqr] using hleft q hq rfl
      · simpa [update_of_ne hqr, update_of_ne hqr'] using h.gap q hq
  · by_cases hr : r = 3
    · subst hr
      simpa using hlast rfl
    · simpa [update_of_ne (Ne.symm hr)] using h.fits

lemma rngIdx_lt (h : Laid rng) (hr : r < 4) (ht : rTime ≤ (rng.ctl r).end_) :
    rngIdx (rng.ctl r) rTime < 16 := by
  have hspan := h.span r hr
  rw [statsRspan] at hspan
  rw [rngIdx]
  split
  · omega
  · refine Nat.div_lt_of_lt_mul ?_
    exact Nat.lt_of_le_of_lt (Nat.mod_le _ _) (by omega)

lemma rangeGrowRight_laid (h : Laid rng) (hr : r < 3)
    (hroom : (rng.ctl r).begin + statsRspan ((rng.ctl r).order + 1) < (rng.ctl (r + 1)).begin) :
    Laid (rangeGrowRight rng r) := by
  have hnext := h.end_lt (show r + 1 < 4 by omega)
  have hspan := h.span (r + 1) (by omega)
  refine Laid.of_ctl (h.setCtl r ⟨(rng.ctl r).order + 1, (rng.ctl r).begin,
    uint ((rng.ctl r).begin + statsRspan ((rng.ctl r).order + 1))⟩ ?_ ?_ ?_ ?_ ?_) rfl
  · exact uint_of_lt (by omega)
  · intro h0
    subst h0
    exact h.first
  · intro q hq hqr
    subst hqr
    exact h.gap q hq
  · intro _
    rw [uint_of_lt (by omega)]
    exact hroom
  · intro h3
    omega

lemma rangeShrinkLeft_laid (h : Laid rng) (hr0 : r ≠ 0) (hr : r < 4)
    (horder : (rng.ctl r).order ≠ 0) : Laid (rangeShrinkLeft rng r) := by
  have hend := h.end_lt hr
  have hspan := h.span r hr
  obtain ⟨o, ho⟩ := Nat.exists_eq_succ_of_ne_zero horder
  have hbegin : uint ((rng.ctl r).end_ + 2 ^ 32 - uint (statsRspan ((rng.ctl r).order - 1)))
      = (rng.ctl r).begin + statsRspan o := by
    rw [ho, Nat.succ_eq_add_one, statsRspan_succ] at hspan
    rw [ho, Nat.succ_sub_one, uint_of_lt (n := statsRspan o) (by omega), uint]
    omega
  refine Laid.of_ctl (h.setCtl r ⟨(rng.ctl r).order - 1,
    uint ((rng.ctl r).end_ + 2 ^ 32 - uint (statsRspan ((rng.ctl r).order - 1))),
    (rng.ctl r).end_⟩ ?_ ?_ ?_ ?_ ?_) rfl
  · show (rng.ctl r).end_ = uint _ + statsRspan ((rng.ctl r).order - 1)
    rw [hbegin, ho, Nat.succ_sub_one]
    rw [ho, Nat.succ_eq_add_one, statsRspan_succ] at hspan
    omega
  · intro h0
    exact absurd h0 hr0
  · intro q hq hqr
    have hgap := h.gap q hq
    rw [hqr] at hgap
    show (rng.ctl q).end_ < uint _
    rw [hbegin]
    omega
  · intro hr3
    exact h.gap r hr3
  · intro h3
    subst h3
    exact h.fits

theorem scanBckts_spec (row : Nat → Nat) :
    (scanBckts row).max ≤ row (scanBckts row).iMax ∧
      ((∃ b < 16, row b ≠ 0) → (scanBckts row).cnt ≠ 0) := by
  have hgen : ∀ n, ((List.range n).foldl (scanBckt row) ⟨0, 0, 0, 0⟩).max
        ≤ row ((List.range n).foldl (scanBckt row) ⟨0, 0, 0, 0⟩).iMax ∧
      ((∃ b < n, row b ≠ 0) → ((List.range n).foldl (scanBckt row) ⟨0, 0, 0, 0⟩).cnt ≠ 0) := by
    intro n
    induction n with
    | zero => exact ⟨Nat.zero_le _, fun ⟨b, hb, _⟩ => absurd hb (Nat.not_lt_zero b)⟩
    | succ n ih =>
      rw [range_succ, foldl_append, foldl_cons, foldl_nil]
      generalize (List.range n).foldl (scanBckt row) ⟨0, 0, 0, 0⟩ = sc at ih
      obtain ⟨ihmax, ihcnt⟩ := ih
      constructor
      · by_cases h0 : row n ≠ 0 <;> by_cases hm : sc.max < row n <;>
          simp [scanBckt, h0, hm, ihmax]
      · rintro ⟨b, hb, hne⟩
        by_cases hbn : b = n
        · subst hbn
          by_cases hm : sc.max < row b <;> simp [scanBckt, hne, hm]
        · have := ihcnt ⟨b, by omega, hne⟩
          by_cases h0 : row n ≠ 0 <;> by_cases hm : sc.max < row n <;>
            simp [scanBckt, h0, hm, this]
  exact hgen 16

/-- Room for the range before `r` to grow, and the largest bucket of range `r` the
first one. -/
structure Outlier (rng : TfwPcntRanges) (r max : Nat) : Prop where
  room : (rng.ctl (r - 1)).begin + statsRspan ((rng.ctl (r - 1)).order + 1) < (rng.ctl r).begin
  first : max ≤ rng.cnt r 0

/-- An adjustment spreads an outlier to the left, shrinks the range, does both or
neither. -/
theorem statsAdjust_cases {rng' : TfwPcntRanges} (h : statsAdjust rng r = some rng') :
    ∃ rng₁, (rng₁ = rng ∨ ∃ max, Outlier rng r max ∧
        rng₁ = spreadLeft (rangeGrowRight rng (r - 1)) r max) ∧
      (rng' = rng₁ ∨ (rng₁.ctl r).order ≠ 0 ∧ rng' = rangeShrinkLeft rng₁ r) := by
  have hmax := (scanBckts_spec (rng.cnt r)).1
  rw [statsAdjust] at h
  simp only at h
  split at h
  · cases h
  split at h
  · cases h
  split at h
  · cases h
    exact ⟨rng, .inl rfl, .inl rfl⟩
  split at h
  next hout =>
    rw [hout.1] at hmax
    refine ⟨_, .inr ⟨_, ⟨hout.2, hmax⟩, rfl⟩, ?_⟩
    split at h
    next ho => exact .inr ⟨ho, (Option.some.inj h).symm⟩
    next => exact .inl (Option.some.inj h).symm
  next =>
    refine ⟨rng, .inl rfl, ?_⟩
    split at h
    next ho => exact .inr ⟨ho, (Option.some.inj h).symm⟩
    next => exact .inl (Option.some.inj h).symm

lemma statsAdjust_isSome (hr : r ≠ 0) (hhit : ∃ b < 16, rng.cnt r b ≠ 0) :
    ∃ rng', statsAdjust rng r = some rng' := by
  have hcnt := (scanBckts_spec (rng.cnt r)).2 hhit
  rw [statsAdjust, if_neg hr]
  simp only [if_neg hcnt]
  split
  · exact ⟨_, rfl⟩
  · exact ⟨_, rfl⟩

lemma statsAdjust_laid (h : Laid rng) (hr0 : r ≠ 0) (hr : r < 4)
    (ha : statsAdjust rng r = some rng') : Laid rng' := by
  obtain ⟨rng₁, hleft, hright⟩ := statsAdjust_cases ha
  have hlaid : Laid rng₁ := by
    obtain rfl | ⟨max, hout, rfl⟩ := hleft
    · exact h
    · have hroom := hout.room
      rw [← Nat.sub_add_cancel (Nat.one_le_iff_ne_zero.mpr hr0), Nat.add_sub_cancel] at hroom
      exact (rangeGrowRight_laid h (by omega) hroom).of_ctl rfl
  obtain rfl | ⟨horder, rfl⟩ := hright
  · exact hlaid
  · exact rangeShrinkLeft_laid hlaid hr0 hr horder

def hits (rng : TfwPcntRanges) : Nat := ∑ r ∈ Finset.range 4, rowSum (rng.cnt r)

lemma hits_setCnt (rng : TfwPcntRanges) (hr : r < 4) (row : Nat → Nat) :
    hits (rng.setCnt r row) + rowSum (rng.cnt r) = hits rng + rowSum row := by
  have hrows : ∀ q, rowSum ((rng.setCnt r row).cnt q)
      = update (fun q => rowSum (rng.cnt q)) r (rowSum row) q := by
    intro q
    by_cases hq : q = r
    · subst hq
      simp
    · simp [update_of_ne hq]
  rw [hits, Finset.sum_congr rfl (fun q _ => hrows q)]
  exact sum_update (fun q => rowSum (rng.cnt q)) hr (rowSum row)

lemma rowSum_le_hits (rng : TfwPcntRanges) (hr : r < 4) : rowSum (rng.cnt r) ≤ hits rng :=
  le_sum (fun r => rowSum (rng.cnt r)) hr

lemma hits_setCnt_same (rng : TfwPcntRanges) (hr : r < 4)
    (hrow : rowSum row = rowSum (rng.cnt r)) : hits (rng.setCnt r row) = hits rng := by
  have := hits_setCnt rng hr row
  omega

lemma rangeShrinkLeft_hits (hr : r < 4) (h : hits rng < 2 ^ 64) :
    hits (rangeShrinkLeft rng r) = hits rng := by
  have hrow := rowSum_le_hits rng hr
  exact hits_setCnt_same (rng.setCtl r _) hr (rowSum_shrink _ (by omega))

/-- The first bucket of range `r` gives away as many hits as the right half of the
range before it gets, and growing has freed that half. -/
theorem spreadLeft_hits (hr0 : r ≠ 0) (hr : r < 4) (h : hits rng < 2 ^ 64)
    (hmax : max ≤ rng.cnt r 0) :
    hits (spreadLeft (rangeGrowRight rng (r - 1)) r max) = hits rng := by
  have hp : r - 1 < 4 := by omega
  have hne : r - 1 ≠ r := by omega
  have hprev := rowSum_le_hits rng hp
  have hcell := le_rowSum (rng.cnt r) (show 0 < 16 by omega)
  have hrow := rowSum_le_hits rng hr
  have hsub : ulong (rng.cnt r 0 + 2 ^ 64 - ulong (max / 9 * 8)) = rng.cnt r 0 - max / 9 * 8 := by
    rw [ulong_of_lt (n := max / 9 * 8) (by omega), ulong]
    omega
  have hgrown : (rangeGrowRight rng (r - 1)).cnt r = rng.cnt r := by
    simp [rangeGrowRight, update_of_ne hne.symm]
  have hgrow := hits_setCnt (rng.setCtl (r - 1) ⟨(rng.ctl (r - 1)).order + 1,
    (rng.ctl (r - 1)).begin, uint ((rng.ctl (r - 1)).begin
      + statsRspan ((rng.ctl (r - 1)).order + 1))⟩) hp (growRow (rng.cnt (r - 1)))
  have htake := hits_setCnt (rangeGrowRight rng (r - 1)) hr
    (update (rng.cnt r) 0 (rng.cnt r 0 - max / 9 * 8))
  have hfill := hits_setCnt ((rangeGrowRight rng (r - 1)).setCnt r
    (update (rng.cnt r) 0 (rng.cnt r 0 - max / 9 * 8))) hp
    (fun b => if 8 ≤ b ∧ b < 16 then max / 9 else growRow (rng.cnt (r - 1)) b)
  have hbucket := sum_update (rng.cnt r) (show 0 < 16 by omega) (rng.cnt r 0 - max / 9 * 8)
  have hhalf := rowSum_grow (rng.cnt (r - 1)) (max / 9) (by omega)
  have hcntp : (rangeGrowRight rng (r - 1)).cnt (r - 1) = growRow (rng.cnt (r - 1)) := by
    simp [rangeGrowRight]
  rw [TfwPcntRanges.setCnt_cnt, update_of_ne hne, hcntp] at hfill
  rw [hgrown] at htake
  rw [spreadLeft]
  simp only [hgrown, hsub, TfwPcntRanges.setCnt_cnt, update_of_ne hne, hcntp]
  simp only [TfwPcntRanges.setCtl_cnt] at hgrow
  change hits (rangeGrowRight rng (r - 1)) + _ = hits rng + _ at hgrow
  simp only [rowSum] at hbucket hhalf hgrow htake hfill ⊢
  omega

lemma statsAdjust_hits (hr0 : r ≠ 0) (hr : r < 4) (h : hits rng < 2 ^ 64)
    (ha : statsAdjust rng r = some rng') : hits rng' = hits rng := by
  obtain ⟨rng₁, hleft, hright⟩ := statsAdjust_cases ha
  have hhits : hits rng₁ = hits rng := by
    obtain rfl | ⟨max, hout, rfl⟩ := hleft
    · rfl
    · exact spreadLeft_hits hr0 hr h hout.first
  obtain rfl | ⟨_, rfl⟩ := hright
  · exact hhits
  · rw [rangeShrinkLeft_hits hr (by omega), hhits]

theorem extendOrder_spec (ht : rTime < 2 ^ 32) (hlt : begin + statsRspan order < rTime) :
    ∃ order', iterate (extendOrder begin rTime) 33 order = some order' ∧ order < order' ∧
      rTime ≤ begin + statsRspan order' ∧ begin + statsRspan (order' - 1) < rTime := by
  have hnext : ∀ o o', extendOrder begin rTime o = .inl o' →
      o' = o + 1 ∧ begin + statsRspan o' < rTime := by
    intro o o' hstep
    rw [extendOrder] at hstep
    split at hstep
    next hlo =>
      cases hstep
      exact ⟨rfl, hlo⟩
    next => cases hstep
  have hsmall : ∀ o, begin + statsRspan o < rTime → o < 32 := by
    intro o ho
    refine Nat.lt_of_not_le fun hge => ?_
    have hmono := statsRspan_mono hge
    have h32 : statsRspan 32 = 15 * 2 ^ 32 := rfl
    omega
  obtain ⟨order', hiter, hends⟩ := iterate_ends (n := 33) (s := order)
    (I := fun o => begin + statsRspan o < rTime) (μ := fun o => 32 - o)
    (by
      intro o o' ho hstep
      obtain ⟨rfl, hlo⟩ := hnext o o' hstep
      have := hsmall o ho
      exact ⟨hlo, by omega⟩) hlt (by omega)
  refine ⟨order', hiter, ?_⟩
  refine hends.invariant (I := fun o => order ≤ o ∧ begin + statsRspan o < rTime)
    (Q := fun o => order < o ∧ rTime ≤ begin + statsRspan o ∧ begin + statsRspan (o - 1) < rTime)
    ?_ ?_ ⟨Nat.le_refl order, hlt⟩
  · rintro o o' ⟨hle, _⟩ hstep
    obtain ⟨rfl, hlo⟩ := hnext o o' hstep
    exact ⟨by omega, hlo⟩
  · rintro o o' ⟨hle, hlo⟩ hstep
    rw [extendOrder] at hstep
    split at hstep
    next => cases hstep
    next hge =>
      cases hstep
      exact ⟨by omega, by omega, hlo⟩

/-- The ranges once the last one has got `order`. -/
def extended (rng : TfwPcntRanges) (order : Nat) : TfwPcntRanges :=
  (rng.setCtl 3 { rng.ctl 3 with
    order := order
    end_ := (rng.ctl 3).begin + statsRspan order }).setCnt 3
      (extendRow (min (order - (rng.ctl 3).order) 4) (rng.cnt 3))

lemma statsExtend_spec (h : Laid rng) (ht : rTime < 2 ^ 32) (hlt : (rng.ctl 3).end_ < rTime) :
    ∃ order, (rng.ctl 3).order < order ∧ rTime ≤ (rng.ctl 3).begin + statsRspan order ∧
      (rng.ctl 3).begin + statsRspan (order - 1) < rTime ∧
      statsExtend rng rTime = if 2 ^ 32 ≤ (rng.ctl 3).begin + statsRspan order then none
        else some (extended rng order) := by
  have hspan := h.span 3 (by omega)
  obtain ⟨order, hiter, hspec⟩ := extendOrder_spec ht (hspan ▸ hlt)
  refine ⟨order, hspec.1, hspec.2.1, hspec.2.2, ?_⟩
  rw [statsExtend]
  simp only [hiter]
  rfl

lemma extended_laid (h : Laid rng) (hfits : (rng.ctl 3).begin + statsRspan order < 2 ^ 32) :
    Laid (extended rng order) := by
  refine Laid.of_ctl (h.setCtl 3 ⟨order, (rng.ctl 3).begin,
    (rng.ctl 3).begin + statsRspan order⟩ rfl ?_ ?_ ?_ ?_) rfl
  · intro h3
    omega
  · intro q hq hq3
    have hgap := h.gap q hq
    rwa [hq3] at hgap
  · intro h3
    omega
  · intro _
    exact hfits

/-- The hits that fall together when the last range is extended to take `rTime` in
are counted in 32 bits if its order grows by three or more. -/
def HitsFit (rng : TfwPcntRanges) (rTime : Nat) : Prop :=
  ((rng.ctl 3).begin + statsRspan ((rng.ctl 3).order + 2) < rTime →
    ∑ b ∈ Finset.range 8, rng.cnt 3 b < 2 ^ 32 ∧ ∑ b ∈ Finset.range 8, rng.cnt 3 (8 + b) < 2 ^ 32) ∧
  ((rng.ctl 3).begin + statsRspan ((rng.ctl 3).order + 3) < rTime →
    ∑ b ∈ Finset.range 16, rng.cnt 3 b < 2 ^ 32)

lemma extended_hits (h : hits rng < 2 ^ 64) (hfit : HitsFit rng rTime)
    (horder : (rng.ctl 3).order < order)
    (hlt : (rng.ctl 3).begin + statsRspan (order - 1) < rTime) :
    hits (extended rng order) = hits rng := by
  have hrow := rowSum_le_hits rng (show 3 < 4 by omega)
  refine hits_setCnt_same (rng.setCtl 3 _) (show 3 < 4 by omega) ?_
  refine rowSum_extend (by omega) (by omega) (by simpa using (by omega)) ⟨?_, ?_⟩
  · intro h3
    refine hfit.1 ?_
    have := statsRspan_mono (show (rng.ctl 3).order + 2 ≤ order - 1 by omega)
    omega
  · intro h4
    refine hfit.2 ?_
    have := statsRspan_mono (show (rng.ctl 3).order + 3 ≤ order - 1 by omega)
    omega

/-- A hit in range `r` and the adjustment that follows it. -/
def countIn (rng : TfwPcntRanges) (r rTime : Nat) : Option TfwPcntRanges :=
  (hit rng r rTime).bind (fun rng => if r = 0 then some rng else statsAdjust rng r)

/-- The response time is counted in the range that reaches up to it, the last one
extended first if it has to be. -/
theorem statsCount_eq (h : Laid rng) (rTime : Nat) :
    (∃ r < 4, rTime ≤ (rng.ctl r).end_ ∧ statsCount rng rTime = countIn rng r rTime) ∨
      ((rng.ctl 3).end_ < rTime ∧
        statsCount rng rTime = (statsExtend rng rTime).bind (countIn · 3 rTime)) := by
  rw [statsCount]
  by_cases h2 : rTime ≤ (rng.ctl 2).end_
  · rw [if_pos h2]
    by_cases h1 : (rng.ctl 1).end_ < rTime
    · rw [if_pos h1]
      exact .inl ⟨2, by omega, h2, rfl⟩
    · rw [if_neg h1, if_neg (not_not.mpr h.first)]
      by_cases h0 : (rng.ctl 0).end_ < rTime
      · rw [if_pos h0]
        exact .inl ⟨1, by omega, Nat.le_of_not_lt h1, rfl⟩
      · rw [if_neg h0]
        refine .inl ⟨0, by omega, Nat.le_of_not_lt h0, ?_⟩
        simp [countIn]
  · rw [if_neg h2]
    by_cases h3 : (rng.ctl 3).end_ < rTime
    · rw [if_pos h3]
      exact .inr ⟨h3, rfl⟩
    · rw [if_neg h3]
      exact .inl ⟨3, by omega, Nat.le_of_not_lt h3, rfl⟩

/-- The row of range `r` with one more hit. -/
def hitRow (rng : TfwPcntRanges) (r rTime : Nat) : Nat → Nat :=
  Function.update (rng.cnt r) (rngIdx (rng.ctl r) rTime)
    (ulong (rng.cnt r (rngIdx (rng.ctl r) rTime) + 1))

lemma hit_eq (h : Laid rng) (hr : r < 4) (ht : rTime ≤ (rng.ctl r).end_) :
    hit rng r rTime = some (rng.setCnt r (hitRow rng r rTime)) := by
  rw [hit]
  exact if_pos (rngIdx_lt h hr ht)

lemma countIn_laid (h : Laid rng) (hr : r < 4) (hc : countIn rng r rTime = some rng') :
    Laid rng' := by
  obtain ⟨rng₁, hhit, hadj⟩ := Option.bind_eq_some_iff.mp hc
  have hlaid : Laid rng₁ := by
    rw [hit] at hhit
    split at hhit
    · cases hhit
      exact h.of_ctl rfl
    · cases hhit
  split at hadj
  · cases hadj
    exact hlaid
  next hr0 => exact statsAdjust_laid hlaid hr0 hr hadj

lemma countIn_hits (h : Laid rng) (hr : r < 4) (ht : rTime ≤ (rng.ctl r).end_)
    (hhits : hits rng + 1 < 2 ^ 64) :
    ∃ rng', countIn rng r rTime = some rng' ∧ hits rng' = hits rng + 1 := by
  have hidx := rngIdx_lt h hr ht
  have hrow := rowSum_le_hits rng hr
  have hcell := le_rowSum (rng.cnt r) hidx
  have hbump := rowSum_bump (rng.cnt r) hidx (by omega)
  have hset := hits_setCnt rng hr (hitRow rng r rTime)
  rw [hitRow, hbump, ← hitRow] at hset
  rw [countIn, hit_eq h hr ht, bind_some]
  by_cases hr0 : r = 0
  · rw [if_pos hr0]
    exact ⟨_, rfl, by omega⟩
  · rw [if_neg hr0]
    have hfound : (rng.setCnt r (hitRow rng r rTime)).cnt r (rngIdx (rng.ctl r) rTime) ≠ 0 := by
      rw [TfwPcntRanges.setCnt_cnt, update_self, hitRow, update_self,
        ulong_of_lt (by omega)]
      omega
    obtain ⟨rng', hadj⟩ := statsAdjust_isSome hr0 ⟨_, hidx, hfound⟩
    refine ⟨rng', hadj, ?_⟩
    rw [statsAdjust_hits hr0 hr (by omega) hadj]
    omega

lemma statsCount_cases (h : Laid rng) (ht : rTime < 2 ^ 32)
    (hc : statsCount rng rTime = some rng') :
    ∃ rng₁ r, r < 4 ∧ countIn rng₁ r rTime = some rng' ∧ (rng₁ = rng ∨
      ∃ order, rng₁ = extended rng order ∧ (rng.ctl 3).begin + statsRspan order < 2 ^ 32) := by
  obtain ⟨r, hr, _, heq⟩ | ⟨hlt, heq⟩ := statsCount_eq h rTime
  · exact ⟨rng, r, hr, heq ▸ hc, .inl rfl⟩
  · rw [heq] at hc
    obtain ⟨rng₁, hext, hcount⟩ := Option.bind_eq_some_iff.mp hc
    obtain ⟨order, _, _, _, hspec⟩ := statsExtend_spec h ht hlt
    rw [hspec] at hext
    split at hext
    next => cases hext
    next hfits =>
      cases hext
      exact ⟨_, 3, by omega, hcount, .inr ⟨order, rfl, Nat.lt_of_not_le hfits⟩⟩

lemma statsCount_laid (h : Laid rng) (ht : rTime < 2 ^ 32)
    (hc : statsCount rng rTime = some rng') : Laid rng' := by
  obtain ⟨rng₁, r, hr, hcount, rfl | ⟨order, rfl, hfits⟩⟩ := statsCount_cases h ht hc
  · exact countIn_laid h hr hcount
  · exact countIn_laid (extended_laid h hfits) hr hcount

/-- A response time below half of the range of `unsigned int` is always counted. -/
theorem statsCount_hits (h : Laid rng) (ht : rTime < 2 ^ 31) (hhits : hits rng + 1 < 2 ^ 64)
    (hfit : HitsFit rng rTime) :
    ∃ rng', statsCount rng rTime = some rng' ∧ hits rng' = hits rng + 1 := by
  obtain ⟨r, hr, hle, heq⟩ | ⟨hlt, heq⟩ := statsCount_eq h rTime
  · rw [heq]
    exact countIn_hits h hr hle hhits
  · obtain ⟨order, horder, hle, hbelow, hspec⟩ := statsExtend_spec h (by omega) hlt
    have hfits : (rng.ctl 3).begin + statsRspan order < 2 ^ 32 := by
      obtain ⟨o, rfl⟩ := Nat.exists_eq_succ_of_ne_zero (show order ≠ 0 by omega)
      rw [Nat.succ_sub_one] at hbelow
      rw [Nat.succ_eq_add_one, statsRspan_succ]
      omega
    have hsame := extended_hits (by omega) hfit horder hbelow
    rw [heq, hspec, if_neg (Nat.not_le_of_lt hfits), bind_some, ← hsame]
    refine countIn_hits (extended_laid h hfits) (by omega) ?_ (by omega)
    simpa [extended] using hle

/-- Counting leaves the totals and the extremes alone. -/
structure SameTotals (rng rng' : TfwPcntRanges) : Prop where
  totCnt : rng'.totCnt = rng.totCnt
  totVal : rng'.totVal = rng.totVal
  minVal : rng'.minVal = rng.minVal
  maxVal : rng'.maxVal = rng.maxVal

lemma SameTotals.trans (h : SameTotals rng₁ rng₂) (h' : SameTotals rng₂ rng₃) :
    SameTotals rng₁ rng₃ :=
  ⟨h'.totCnt.trans h.totCnt, h'.totVal.trans h.totVal, h'.minVal.trans h.minVal,
    h'.maxVal.trans h.maxVal⟩

lemma countIn_sameTotals (hc : countIn rng r rTime = some rng') : SameTotals rng rng' := by
  obtain ⟨rng₁, hhit, hadj⟩ := Option.bind_eq_some_iff.mp hc
  have hsame : SameTotals rng rng₁ := by
    rw [hit] at hhit
    split at hhit
    · cases hhit
      exact ⟨rfl, rfl, rfl, rfl⟩
    · cases hhit
  refine hsame.trans ?_
  split at hadj
  · cases hadj
    exact ⟨rfl, rfl, rfl, rfl⟩
  · obtain ⟨rng₂, hleft, hright⟩ := statsAdjust_cases hadj
    have hspread : SameTotals rng₁ rng₂ := by
      obtain rfl | ⟨_, _, rfl⟩ := hleft
      · exact ⟨rfl, rfl, rfl, rfl⟩
      · exact ⟨rfl, rfl, rfl, rfl⟩
    refine hspread.trans ?_
    obtain rfl | ⟨_, rfl⟩ := hright
    · exact ⟨rfl, rfl, rfl, rfl⟩
    · exact ⟨rfl, rfl, rfl, rfl⟩

lemma statsCount_sameTotals (h : Laid rng) (ht : rTime < 2 ^ 32)
    (hc : statsCount rng rTime = some rng') : SameTotals rng rng' := by
  obtain ⟨rng₁, r, -, hcount, rfl | ⟨order, rfl, -⟩⟩ := statsCount_cases h ht hc
  · exact countIn_sameTotals hcount
  · have hsame : SameTotals rng (extended rng order) := ⟨rfl, rfl, rfl, rfl⟩
    exact hsame.trans (countIn_sameTotals hcount)

/-- The ranges are laid out and their counters add up to the number of hits. -/
structure Consistent (rng : TfwPcntRanges) : Prop where
  laid : Laid rng
  counted : hits rng = rng.totCnt

lemma rngctlInit_laid (rng : TfwPcntRanges) (h : rng.ctl = rngctlInit) : Laid rng := by
  refine ⟨?_, ?_, ?_, ?_⟩
  · rw [h]
    decide
  · rw [h]
    rfl
  · rw [h]
    decide
  · rw [h]
    decide

lemma rbentReset_hits (rng : TfwPcntRanges) : hits (rbentReset rng) = 0 := by
  simp [hits, rowSum, rbentReset]

lemma rbentInit_consistent : Consistent rbentInit :=
  ⟨rngctlInit_laid _ rfl, rbentReset_hits _⟩

lemma statsUpdate_laid (h : Laid rng) (ht : rTime < 2 ^ 32)
    (hu : statsUpdate rng rTime = some rng') : Laid rng' := by
  obtain ⟨rng₁, hcount, rfl⟩ := Option.map_eq_some_iff.mp hu
  exact (statsCount_laid h ht hcount).of_ctl rfl

/-- What an update needs to lose no hit: a response time of at most 31 bits, one
more hit to fit in the total, and room in 32 bits for the hits that an extension by
three or more orders puts together. -/
structure UpdateFits (rng : TfwPcntRanges) (rTime : Nat) : Prop where
  time : rTime < 2 ^ 31
  total : rng.totCnt + 1 < 2 ^ 64
  hits : HitsFit rng rTime

lemma statsUpdate_consistent (h : Consistent rng) (hfit : UpdateFits rng rTime) :
    ∃ rng', statsUpdate rng rTime = some rng' ∧ Consistent rng' := by
  have hroom := hfit.total
  rw [← h.counted] at hroom
  obtain ⟨rng₁, hcount, hhits⟩ := statsCount_hits h.laid hfit.time hroom hfit.hits
  have ht : rTime < 2 ^ 32 := Nat.lt_trans hfit.time (by decide)
  have hsame := statsCount_sameTotals h.laid ht hcount
  refine ⟨statsTotals rng₁ rTime, by rw [statsUpdate, hcount]; rfl, ?_, ?_⟩
  · exact (statsCount_laid h.laid ht hcount).of_ctl rfl
  · show Tempesta.Apm.hits rng₁ = ulong (rng₁.totCnt + 1)
    rw [hhits, hsame.totCnt, h.counted, ulong_of_lt hfit.total]

/-- Fresh ranges stay consistent along every run of updates that fit. -/
theorem updates_consistent (rTimes : List Nat)
    (hfit : Guarded statsUpdate UpdateFits rbentInit rTimes) :
    ∃ rng, rTimes.foldlM statsUpdate rbentInit = some rng ∧ Consistent rng :=
  hfit.invariant (fun _ _ h hf => statsUpdate_consistent h hf) rbentInit_consistent

/-- The entry `rng` holds the response times `rTimes` recorded since its last reset. -/
inductive Recorded : TfwPcntRanges → List Nat → Prop
  | init : Recorded rbentInit []
  | reset {rng rTimes} : Recorded rng rTimes → Recorded (rbentReset rng) []
  | update {rng rTimes rTime rng'} : Recorded rng rTimes → rTime < 2 ^ 32 →
      statsUpdate rng rTime = some rng' → Recorded rng' (rTimes ++ [rTime])

lemma Recorded.laid {rTimes : List Nat} (h : Recorded rng rTimes) : Laid rng := by
  induction h with
  | init => exact rbentInit_consistent.laid
  | reset _ ih => exact ih.of_ctl rfl
  | update _ ht hu ih => exact statsUpdate_laid ih ht hu

lemma Recorded.updates {rTimes : List Nat} (h : Recorded rng rTimes)
    (hlt : ∀ t ∈ rTimes', t < 2 ^ 32) (hrun : rTimes'.foldlM statsUpdate rng = some rng') :
    Recorded rng' (rTimes ++ rTimes') := by
  induction rTimes' generalizing rng rTimes with
  | nil =>
    cases hrun
    rwa [append_nil]
  | cons t ts ih =>
    rw [foldlM_cons] at hrun
    obtain ⟨rng₁, hupd, hrest⟩ := Option.bind_eq_some_iff.mp hrun
    have hrec := h.update (hlt t mem_cons_self) hupd
    rw [← singleton_append, ← append_assoc]
    exact ih hrec (fun t' ht' => hlt t' (mem_cons_of_mem t ht')) hrest

instance (rng : TfwPcntRanges) (rTime : Nat) : Decidable (HitsFit rng rTime) := by
  unfold HitsFit
  infer_instance

instance (rng : TfwPcntRanges) (rTime : Nat) : Decidable (UpdateFits rng rTime) :=
  decidable_of_iff (rTime < 2 ^ 31 ∧ rng.totCnt + 1 < 2 ^ 64 ∧ HitsFit rng rTime)
    ⟨fun h => ⟨h.1, h.2.1, h.2.2⟩, fun h => ⟨h.time, h.total, h.hits⟩⟩

theorem updates_consistent_three : ∃ rng, [5, 200, 2000].foldlM statsUpdate rbentInit = some rng ∧
    Consistent rng :=
  updates_consistent [5, 200, 2000] (by decide +kernel)

/-- Ranges that have seen `n` response times of 200 ms and nothing else. -/
structure Steady (n : Nat) (rng : TfwPcntRanges) : Prop where
  ctl : rng.ctl = rngctlInit
  cnt : rng.cnt = fun r b => if r = 3 ∧ b = 6 then n else 0
  totCnt : rng.totCnt = n

lemma statsAdjust_single (hk : k < 16) (hx : 0 < x) (hlt : x < 2 ^ 63)
    (hrow : rng.cnt 3 = fun b => if b = k then x else 0) : statsAdjust rng 3 = some rng := by
  have hgen : ∀ n, (List.range n).foldl (scanBckt (rng.cnt 3)) ⟨0, 0, 0, 0⟩
      = if k < n then ⟨1, x, x, k⟩ else ⟨0, 0, 0, 0⟩ := by
    intro n
    induction n with
    | zero => rfl
    | succ n ih =>
      rw [range_succ, foldl_append, ih, foldl_cons, foldl_nil, hrow]
      by_cases hkn : n = k
      · subst hkn
        have hx0 : x ≠ 0 := by omega
        rw [if_neg (Nat.lt_irrefl n), if_pos (Nat.lt_succ_self n)]
        simp [scanBckt, hx0, hx, ulong_of_lt (show x < 2 ^ 64 by omega)]
      · by_cases hlt : k < n
        · rw [if_pos hlt, if_pos (by omega)]
          simp [scanBckt, hkn]
        · rw [if_neg hlt, if_neg (by omega)]
          simp [scanBckt, hkn]
  have hscan : scanBckts (rng.cnt 3) = ⟨1, x, x, k⟩ := by
    rw [scanBckts, hgen 16, if_pos hk]
  rw [statsAdjust, if_neg (by decide), hscan]
  simp only [if_neg (show ¬ 1 = 0 by decide), Nat.div_one]
  rw [if_pos (by rw [ulong_of_lt (by omega)]; omega)]

lemma statsUpdate_steady (h : Steady n rng) (hn : n + 1 < 2 ^ 63) :
    ∃ rng', statsUpdate rng 200 = some rng' ∧ Steady (n + 1) rng' := by
  have hcnt : (rng.setCnt 3 (hitRow rng 3 200)).cnt
      = fun r b => if r = 3 ∧ b = 6 then n + 1 else 0 := by
    have hidx : rngIdx (rngctlInit 3) 200 = 6 := by decide
    funext r b
    rw [TfwPcntRanges.setCnt_cnt, hitRow, h.ctl, hidx, h.cnt]
    by_cases hr : r = 3
    · subst hr
      by_cases hb : b = 6
      · subst hb
        simp [ulong_of_lt (show n + 1 < 2 ^ 64 by omega)]
      · simp [hb]
    · simp [hr]
  have hlaid := rngctlInit_laid rng h.ctl
  have hadj : statsAdjust (rng.setCnt 3 (hitRow rng 3 200)) 3
      = some (rng.setCnt 3 (hitRow rng 3 200)) :=
    statsAdjust_single (k := 6) (by decide) (Nat.succ_pos n) hn (by rw [hcnt]; simp)
  have hcount : statsCount rng 200 = some (rng.setCnt 3 (hitRow rng 3 200)) := by
    have hhit : hit rng 3 200 = some (rng.setCnt 3 (hitRow rng 3 200)) :=
      hit_eq hlaid (by decide) (by rw [h.ctl]; decide)
    rw [statsCount, h.ctl]
    simp only [show ¬ 200 ≤ (rngctlInit 2).end_ by decide, if_false,
      show ¬ (rngctlInit 3).end_ < 200 by decide]
    simp only [bind_eq_bind, bind_some, hhit, hadj]
  refine ⟨statsTotals (rng.setCnt 3 (hitRow rng 3 200)) 200, by rw [statsUpdate, hcount]; rfl,
    h.ctl, hcnt, ?_⟩
  show ulong (rng.totCnt + 1) = n + 1
  rw [h.totCnt, ulong_of_lt (by omega)]

lemma updates_steady (hn : n < 2 ^ 63) :
    ∃ rng, (List.replicate n 200).foldlM statsUpdate rbentInit = some rng ∧ Steady n rng := by
  induction n with
  | zero =>
    refine ⟨rbentInit, rfl, rfl, ?_, rfl⟩
    funext r b
    simp [rbentInit, rbentReset]
  | succ n ih =>
    obtain ⟨rng, hrun, hsteady⟩ := ih (by omega)
    obtain ⟨rng', hupd, hsteady'⟩ := statsUpdate_steady hsteady hn
    refine ⟨rng', ?_, hsteady'⟩
    rw [replicate_succ', foldlM_append, hrun]
    simpa using hupd

lemma extendRow_steady (hn : n % 2 ^ 32 = 0) :
    extendRow 3 (fun b => if b = 6 then n else 0) = fun _ => 0 := by
  funext b
  simp only [extendRow]
  rw [sweep_apply (coalesced_congr (2 ^ 3) (by decide))]
  by_cases hb : b < 16 / 2 ^ 3
  · have hgroup : coalesced (2 ^ 3) (fun b => if b = 6 then n else 0) b
        = uint (∑ c ∈ Finset.range 8, if 8 * b + c = 6 then n else 0) :=
      foldl_uint_add (fun c => if 8 * b + c = 6 then n else 0) 8
    rw [if_neg (by omega), if_pos hb, hgroup]
    obtain rfl | rfl : b = 0 ∨ b = 1 := by omega
    · simpa [Finset.sum_range_succ, uint] using hn
    · simp [Finset.sum_range_succ, uint]
  · rw [if_neg hb]
    by_cases h16 : b < 16
    · rw [if_pos ⟨by omega, h16⟩]
    · rw [if_neg (by omega), if_neg (by omega)]

/-- A time of 2000 ms extends the last range by three orders, and what is left of
the hits is the new one. -/
theorem statsUpdate_lossy (h : Steady n rng) (hn : n % 2 ^ 32 = 0) (hlt : n < 2 ^ 63) :
    ∃ rng', statsUpdate rng 2000 = some rng' ∧ rng'.totCnt = n + 1 ∧ hits rng' = 1 := by
  have hext : statsExtend rng 2000 = some (extended rng 7) := by
    rw [statsExtend, h.ctl]
    simp only [show iterate (extendOrder (rngctlInit 3).begin 2000) 33 (rngctlInit 3).order
      = some 7 by decide]
    rw [if_neg (by decide), extended, h.ctl]
  have hlaid : Laid (extended rng 7) :=
    extended_laid (rngctlInit_laid rng h.ctl) (by rw [h.ctl]; decide)
  have hctl : (extended rng 7).ctl 3 = ⟨7, 109, 2029⟩ := by
    simp [extended, h.ctl, rngctlInit, statsRspan]
  have hempty : (extended rng 7).cnt = fun _ _ => 0 := by
    have hrow : rng.cnt 3 = fun b => if b = 6 then n else 0 := by
      rw [h.cnt]
      simp
    funext r b
    by_cases hr : r = 3
    · subst hr
      simp only [extended, TfwPcntRanges.setCnt_cnt, update_self, h.ctl, hrow]
      exact congrFun (extendRow_steady hn) b
    · simp [extended, h.cnt, hr]
  have hnone : hits (extended rng 7) = 0 := by
    simp [hits, rowSum, hempty]
  have hwithin : 2000 ≤ ((extended rng 7).ctl 3).end_ := by
    rw [hctl]
    decide
  obtain ⟨rng', hcount, hhits⟩ := countIn_hits hlaid (show 3 < 4 by decide) hwithin
    (by rw [hnone]; decide)
  have hsame := countIn_sameTotals hcount
  refine ⟨statsTotals rng' 2000, ?_, ?_, ?_⟩
  · obtain ⟨r, hr, hle, _⟩ | ⟨_, heq⟩ := statsCount_eq (rngctlInit_laid rng h.ctl) 2000
    · rw [h.ctl] at hle
      obtain rfl | rfl | rfl | rfl : r = 0 ∨ r = 1 ∨ r = 2 ∨ r = 3 := by omega
      all_goals exact absurd hle (by decide)
    · rw [statsUpdate, heq, hext, bind_some, hcount]
      rfl
  · show ulong (rng'.totCnt + 1) = n + 1
    rw [hsame.totCnt]
    show ulong (rng.totCnt + 1) = n + 1
    rw [h.totCnt, ulong_of_lt (by omega)]
  · show hits rng' = 1
    rw [hhits, hnone]

lemma not_consistent_of_lossy (hpos : 0 < n) (hn : n % 2 ^ 32 = 0) (hlt : n < 2 ^ 63) :
    (∀ t ∈ List.replicate n 200 ++ [2000], t < 2 ^ 31) ∧
      ¬ ∃ rng, (List.replicate n 200 ++ [2000]).foldlM statsUpdate rbentInit = some rng ∧
        Consistent rng := by
  constructor
  · intro t ht
    obtain ht | ht := mem_append.mp ht
    · rw [eq_of_mem_replicate ht]
      decide
    · rw [mem_singleton.mp ht]
      decide
  · rintro ⟨rng', hrun', hcons⟩
    obtain ⟨rng, hrun, hsteady⟩ := updates_steady hlt
    obtain ⟨rng'', hupd, htot, hhits⟩ := statsUpdate_lossy hsteady hn hlt
    rw [foldlM_append, hrun] at hrun'
    simp only [bind_eq_bind, bind_some, foldlM_cons, hupd, foldlM_nil,
      Option.pure_def] at hrun'
    cases hrun'
    have := hcons.counted
    omega

/-- After 2^32 hits in one bucket of the last range a longer response time loses
them all. -/
theorem extend_loses_hits :
    (∀ t ∈ List.replicate (2 ^ 32) 200 ++ [2000], t < 2 ^ 31) ∧
      ¬ ∃ rng, (List.replicate (2 ^ 32) 200 ++ [2000]).foldlM statsUpdate rbentInit = some rng ∧
        Consistent rng :=
  not_consistent_of_lossy (by decide) (by decide) (by decide)

end Tempesta.Apm
