import Tempesta.Apm.Percentiles

/-!
The least, the largest and the mean response time of a ring buffer. The first value
of an entry is taken for a minimum and so never for a maximum: the largest time is
reported if it occurs in some entry after the first value, provided that the percentile
loop in front of it comes to an end.
-/

namespace Tempesta.Apm

open List

/-- The least and the largest value so far, as `tfw_stats_update` keeps them. -/
def adjExtremes (x : Nat × Nat) (rTime : Nat) : Nat × Nat :=
  (if rTime < x.1 then rTime else x.1, if ¬ rTime < x.1 ∧ x.2 < rTime then rTime else x.2)

def extremes (rTimes : List Nat) : Nat × Nat := rTimes.foldl adjExtremes (2 ^ 32 - 1, 0)

variable {rTimes l : List Nat} {rTime M t : Nat} {s : Summary} {rng : TfwPcntRanges}

lemma extremes_concat : extremes (rTimes ++ [rTime]) = adjExtremes (extremes rTimes) rTime :=
  foldl_append

/-- What the totals of an entry say about the response times recorded in it. -/
structure Totals (rng : TfwPcntRanges) (rTimes : List Nat) : Prop where
  times : ∀ t ∈ rTimes, t < 2 ^ 32
  totCnt : rng.totCnt = ulong rTimes.length
  totVal : rng.totVal = ulong rTimes.sum
  minMax : (rng.minVal, rng.maxVal) = extremes rTimes

lemma Recorded.totals (h : Recorded rng rTimes) : Totals rng rTimes := by
  have hempty : ∀ rng, Totals (rbentReset rng) [] :=
    fun rng => ⟨fun t ht => absurd ht not_mem_nil, rfl, rfl, rfl⟩
  induction h with
  | init => exact hempty _
  | reset _ _ => exact hempty _
  | @update rng rTimes rTime rng' hrec ht hu ih =>
    obtain ⟨rng₁, hcount, rfl⟩ := Option.map_eq_some_iff.mp hu
    have hsame := statsCount_sameTotals hrec.laid ht hcount
    refine ⟨?_, ?_, ?_, ?_⟩
    · intro t htm
      obtain htm | htm := mem_append.mp htm
      · exact ih.times t htm
      · rw [mem_singleton.mp htm]
        exact ht
    · show ulong (rng₁.totCnt + 1) = _
      rw [hsame.totCnt, ih.totCnt, length_append, length_singleton]
      simp only [ulong, Nat.mod_add_mod]
    · show ulong (rng₁.totVal + rTime) = _
      rw [hsame.totVal, ih.totVal, sum_append, sum_singleton]
      simp only [ulong, Nat.mod_add_mod]
    · rw [extremes_concat, ← ih.minMax, ← hsame.minVal, ← hsame.maxVal]
      rfl

lemma extremes_min (rTimes : List Nat) :
    (extremes rTimes).1 ≤ 2 ^ 32 - 1 ∧ (∀ t ∈ rTimes, (extremes rTimes).1 ≤ t) ∧
      ((extremes rTimes).1 = 2 ^ 32 - 1 ∨ (extremes rTimes).1 ∈ rTimes) := by
  induction rTimes using List.reverseRecOn with
  | nil => exact ⟨Nat.le_refl _, fun t ht => absurd ht not_mem_nil, .inl rfl⟩
  | append_singleton ts t ih =>
    obtain ⟨hle, hall, hmem⟩ := ih
    rw [extremes_concat, adjExtremes]
    by_cases ht : t < (extremes ts).1
    · rw [if_pos ht]
      refine ⟨by omega, ?_, .inr (by simp)⟩
      intro u hu
      obtain hu | hu := mem_append.mp hu
      · have := hall u hu
        omega
      · exact Nat.le_of_eq (mem_singleton.mp hu).symm
    · rw [if_neg ht]
      refine ⟨hle, ?_, hmem.imp_right (mem_append_left [t])⟩
      intro u hu
      obtain hu | hu := mem_append.mp hu
      · exact hall u hu
      · rw [mem_singleton.mp hu]
        omega

lemma extremes_max_mem (rTimes : List Nat) :
    (extremes rTimes).2 = 0 ∨ (extremes rTimes).2 ∈ rTimes := by
  induction rTimes using List.reverseRecOn with
  | nil => exact .inl rfl
  | append_singleton ts t ih =>
    rw [extremes_concat, adjExtremes]
    dsimp only
    split
    · exact .inr (by simp)
    · exact ih.imp_right (mem_append_left [t])

lemma extremes_max_iff (hM : ∀ t ∈ rTimes, t ≤ M) (h0 : 0 < M) (htop : M < 2 ^ 32 - 1) :
    (extremes rTimes).2 = M ↔ M ∈ rTimes.tail := by
  induction rTimes using List.reverseRecOn with
  | nil => exact ⟨fun h => absurd h h0.ne, fun h => absurd h not_mem_nil⟩
  | append_singleton ts t ih =>
    have hts : ∀ u ∈ ts, u ≤ M := fun u hu => hM u (mem_append_left [t] hu)
    have ht : t ≤ M := hM t (by simp)
    have ih := ih hts
    have hmax : (extremes ts).2 ≤ M := by
      obtain hzero | hmem := extremes_max_mem ts
      · omega
      · exact hts _ hmem
    rw [extremes_concat, adjExtremes]
    dsimp only
    by_cases hnil : ts = []
    · subst hnil
      rw [if_neg (by simp only [extremes, foldl_nil]; omega)]
      exact ih
    · rw [tail_append_of_ne_nil hnil, mem_append, mem_singleton, ← ih]
      by_cases hlt : t < (extremes ts).1
      · obtain ⟨u, hu⟩ := exists_mem_of_ne_nil ts hnil
        have := (extremes_min ts).2.1 u hu
        have := hts u hu
        rw [if_neg (fun h => h.1 hlt)]
        omega
      · split <;> omega

/-- A time of `UINT_MAX` is never taken for a minimum. -/
theorem extremes_max_top (hM : ∀ t ∈ rTimes, t ≤ 2 ^ 32 - 1) (hmem : 2 ^ 32 - 1 ∈ rTimes) :
    (extremes rTimes).2 = 2 ^ 32 - 1 := by
  induction rTimes using List.reverseRecOn with
  | nil => exact absurd hmem not_mem_nil
  | append_singleton ts t ih =>
    have hts : ∀ u ∈ ts, u ≤ 2 ^ 32 - 1 := fun u hu => hM u (mem_append_left [t] hu)
    have hmin := (extremes_min ts).1
    rw [extremes_concat, adjExtremes]
    dsimp only
    obtain hmem | hmem := mem_append.mp hmem
    · have ht := hM t (by simp)
      rw [ih hts hmem, if_neg (by omega)]
    · rw [← mem_singleton.mp hmem]
      have hmax : (extremes ts).2 ≤ 2 ^ 32 - 1 := by
        obtain hzero | hmem := extremes_max_mem ts
        · omega
        · exact hts _ hmem
      split <;> omega

/-- The entries of a ring buffer with the response times recorded in each. -/
abbrev Recordings : Type := List (TfwPcntRanges × List Nat)

def allTimes (es : Recordings) : List Nat := (es.map Prod.snd).flatten

variable {es : Recordings}

lemma mem_allTimes : t ∈ allTimes es ↔ ∃ e ∈ es, t ∈ e.2 := by
  rw [allTimes, mem_flatten]
  constructor
  · rintro ⟨l, hl, ht⟩
    obtain ⟨e, he, rfl⟩ := mem_map.mp hl
    exact ⟨e, he, ht⟩
  · rintro ⟨e, he, ht⟩
    exact ⟨e.2, mem_map_of_mem he, ht⟩

/-- What the last loop has gathered from the entries `es`. -/
structure Gathered (es : Recordings) (s : Summary) : Prop where
  cnt : s.cnt = ulong (allTimes es).length
  val : s.val = ulong (allTimes es).sum
  minLe : s.min ≤ 2 ^ 32 - 1 ∧ ∀ t ∈ allTimes es, s.min ≤ t
  minMem : s.min = 2 ^ 32 - 1 ∨ s.min ∈ allTimes es
  maxLe : ∀ e ∈ es, (extremes e.2).2 ≤ s.max
  maxMem : s.max = 0 ∨ ∃ e ∈ es, (extremes e.2).2 = s.max

lemma gathered_summary (hes : ∀ e ∈ es, Totals e.1 e.2) :
    Gathered es ((es.map Prod.fst).foldl Summary.addEntry ⟨0, 0, 2 ^ 32 - 1, 0⟩) := by
  induction es using List.reverseRecOn with
  | nil =>
    refine ⟨rfl, rfl, ⟨Nat.le_refl _, fun t ht => absurd ht not_mem_nil⟩, .inl rfl,
      fun e he => absurd he not_mem_nil, .inl rfl⟩
  | append_singleton es e ih =>
    have he := hes e (by simp)
    have ih := ih (fun e' he' => hes e' (mem_append_left [e] he'))
    rw [map_append, foldl_append]
    generalize (es.map Prod.fst).foldl Summary.addEntry ⟨0, 0, 2 ^ 32 - 1, 0⟩ = s at ih
    have hall : allTimes (es ++ [e]) = allTimes es ++ e.2 := by simp [allTimes]
    have hminVal : e.1.minVal = (extremes e.2).1 := congrArg Prod.fst he.minMax
    have hmaxVal : e.1.maxVal = (extremes e.2).2 := congrArg Prod.snd he.minMax
    obtain ⟨hmin, hminAll, hminMem⟩ := extremes_min e.2
    have hmaxlt : (extremes e.2).2 < 2 ^ 32 := by
      obtain hzero | hmem := extremes_max_mem e.2
      · omega
      · exact he.times _ hmem
    show Gathered (es ++ [e]) (s.addEntry e.1)
    have hsmin : (s.addEntry e.1).min
        = if (extremes e.2).1 < s.min then (extremes e.2).1 else s.min := by
      rw [← hminVal, Summary.addEntry]
      rw [uint_of_lt (by omega)]
    have hsmax : (s.addEntry e.1).max
        = if s.max < (extremes e.2).2 then (extremes e.2).2 else s.max := by
      rw [← hmaxVal, Summary.addEntry]
      dsimp only
      rw [uint_of_lt (by omega)]
    refine ⟨?_, ?_, ?_, ?_, ?_, ?_⟩
    · show ulong (s.cnt + e.1.totCnt) = _
      rw [hall, length_append, ih.cnt, he.totCnt]
      simp only [ulong, Nat.mod_add_mod, Nat.add_mod_mod]
    · show ulong (s.val + e.1.totVal) = _
      rw [hall, sum_append, ih.val, he.totVal]
      simp only [ulong, Nat.mod_add_mod, Nat.add_mod_mod]
    · rw [hsmin, hall]
      have hold := ih.minLe
      refine ⟨by split <;> omega, ?_⟩
      intro t ht
      obtain ht | ht := mem_append.mp ht
      · have := hold.2 t ht
        split <;> omega
      · have := hminAll t ht
        split <;> omega
    · rw [hsmin, hall]
      split
      next hlt =>
        obtain htop | hmem := hminMem
        · omega
        · exact .inr (mem_append_right _ hmem)
      next => exact ih.minMem.imp_right (mem_append_left e.2)
    · rw [hsmax]
      intro e' he'
      obtain he' | he' := mem_append.mp he'
      · have := ih.maxLe e' he'
        split <;> omega
      · rw [mem_singleton.mp he']
        split <;> omega
    · rw [hsmax]
      split
      · exact .inr ⟨e, by simp, rfl⟩
      · refine ih.maxMem.imp_right ?_
        rintro ⟨e', he', heq⟩
        exact ⟨e', mem_append_left [e] he', heq⟩

/-- The largest time is the largest one gathered if it is nobody's first, or if the
first place makes no difference. -/
theorem Gathered.max_eq_iff (h : Gathered es s) (hes : ∀ e ∈ es, Totals e.1 e.2)
    (hM : IsGreatest { t | t ∈ allTimes es } M) :
    s.max = M ↔ M = 0 ∨ M = 2 ^ 32 - 1 ∨ ∃ e ∈ es, M ∈ e.2.tail := by
  have hle : ∀ e ∈ es, ∀ t ∈ e.2, t ≤ M := fun e he t ht => hM.2 (mem_allTimes.mpr ⟨e, he, ht⟩)
  obtain ⟨e₀, he₀, hmem⟩ := mem_allTimes.mp hM.1
  have htop : M < 2 ^ 32 := (hes e₀ he₀).times M hmem
  have hmax : s.max ≤ M := by
    obtain hzero | ⟨e, he, heq⟩ := h.maxMem
    · omega
    · rw [← heq]
      obtain hzero | hmem := extremes_max_mem e.2
      · omega
      · exact hle e he _ hmem
  constructor
  · rintro rfl
    by_cases h0 : s.max = 0
    · exact .inl h0
    · by_cases hU : s.max = 2 ^ 32 - 1
      · exact .inr (.inl hU)
      · obtain hzero | ⟨e, he, heq⟩ := h.maxMem
        · exact absurd hzero h0
        · exact .inr (.inr ⟨e, he,
            (extremes_max_iff (hle e he) (by omega) (by omega)).mp heq⟩)
  · intro hcase
    refine Nat.le_antisymm hmax ?_
    obtain rfl | rfl | ⟨e, he, htail⟩ := hcase
    · exact Nat.zero_le _
    · rw [← extremes_max_top (hle e₀ he₀) hmem]
      exact h.maxLe e₀ he₀
    · by_cases h0 : M = 0
      · omega
      · by_cases hU : M = 2 ^ 32 - 1
        · subst hU
          rw [← extremes_max_top (hle e₀ he₀) hmem]
          exact h.maxLe e₀ he₀
        · rw [← (extremes_max_iff (hle e he) (by omega) (by omega)).mpr htail]
          exact h.maxLe e he

lemma Gathered.least (h : Gathered es s) (hes : ∀ e ∈ es, Totals e.1 e.2) (hne : allTimes es ≠ []) :
    IsLeast { t | t ∈ allTimes es } s.min := by
  refine ⟨?_, fun t ht => h.minLe.2 t ht⟩
  obtain htop | hmem := h.minMem
  · obtain ⟨t, ht⟩ := exists_mem_of_ne_nil _ hne
    obtain ⟨e, he, hte⟩ := mem_allTimes.mp ht
    have hlt := (hes e he).times t hte
    have hge := h.minLe.2 t ht
    have heq : s.min = t := by omega
    rw [heq]
    exact ht
  · exact hmem

/-- The summary reported: the least, the largest and the mean response time. -/
structure ExtremesRight (es : Recordings) (val : Nat → Nat) : Prop where
  least : IsLeast { t | t ∈ allTimes es } (val idxMin)
  greatest : IsGreatest { t | t ∈ allTimes es } (val idxMax)
  mean : val idxAvg = (allTimes es).sum / (allTimes es).length

lemma mean_lt (h : ∀ t ∈ l, t < 2 ^ 32) : l.sum / l.length < 2 ^ 32 := by
  have hle : l.sum ≤ l.length * (2 ^ 32 - 1) := by
    have := sum_le_card_nsmul l (2 ^ 32 - 1) (fun t ht => Nat.le_sub_one_of_lt (h t ht))
    rwa [Nat.nsmul_eq_mul] at this
  have := Nat.div_le_of_le_mul hle
  omega

lemma prnctlSummary_spec (val : Nat → Nat) (hes : ∀ e ∈ es, Totals e.1 e.2)
    (hne : allTimes es ≠ []) (hsum : (allTimes es).sum < 2 ^ 64)
    (hlen : (allTimes es).length < 2 ^ 64) :
    ∃ s, Gathered es s ∧ prnctlSummary (es.map Prod.fst) val idxMin = s.min ∧
      prnctlSummary (es.map Prod.fst) val idxMax = s.max ∧
      prnctlSummary (es.map Prod.fst) val idxAvg = (allTimes es).sum / (allTimes es).length := by
  have hgath := gathered_summary hes
  refine ⟨_, hgath, ?_⟩
  have hpos : (allTimes es).length ≠ 0 := fun h => hne (length_eq_zero_iff.mp h)
  have htimes : ∀ t ∈ allTimes es, t < 2 ^ 32 := by
    intro t ht
    obtain ⟨e, he, hte⟩ := mem_allTimes.mp ht
    exact (hes e he).times t hte
  simp only [prnctlSummary]
  rw [hgath.cnt, hgath.val, ulong_of_lt hlen, ulong_of_lt hsum, if_pos hpos,
    uint_of_lt (mean_lt htimes)]
  refine ⟨rfl, rfl, rfl⟩

/-- The calculation reports the least time, the mean and the largest time exactly if the
percentile loop ends and the largest time is recorded in some entry after the first value. -/
theorem extremes_right_iff (es : Recordings) (val : Nat → Nat)
    (hrec : ∀ e ∈ es, Recorded e.1 e.2) (hne : allTimes es ≠ [])
    (hsum : (allTimes es).sum < 2 ^ 64) (hlen : (allTimes es).length < 2 ^ 64)
    (ht : totalCnt (es.map Prod.fst) * 99 < 2 ^ 64) (hall : allHits (es.map Prod.fst) < 2 ^ 64) :
    (∃ val', prnctlCalc (es.map Prod.fst) (totalCnt (es.map Prod.fst)) val = some val' ∧
        ExtremesRight es val') ↔
      totalCnt (es.map Prod.fst) * 99 / 100 ≤ hitsFront (es.map Prod.fst) endMark ∧
        ∃ M, IsGreatest { t | t ∈ allTimes es } M ∧
          (M = 0 ∨ M = 2 ^ 32 - 1 ∨ ∃ e ∈ es, M ∈ e.2.tail) := by
  have hes : ∀ e ∈ es, Totals e.1 e.2 := fun e he => (hrec e he).totals
  have hlaid : ∀ rng ∈ es.map Prod.fst, Laid rng := by
    intro rng hrng
    obtain ⟨e, he, rfl⟩ := mem_map.mp hrng
    exact (hrec e he).laid
  have hlast : pval (totalCnt (es.map Prod.fst)) 7 = totalCnt (es.map Prod.fst) * 99 / 100 :=
    pval_eq ht (by decide)
  have hspec := prnctlPcnts_spec val hlaid ht hall
  rw [hlast] at hspec
  rw [prnctlCalc]
  obtain ⟨hends, val', hval, _⟩ | ⟨hlt, hnone⟩ := hspec
  · obtain ⟨s, hgath, hmin, hmax, havg⟩ := prnctlSummary_spec val' hes hne hsum hlen
    rw [hval, Option.map_some]
    constructor
    · rintro ⟨val'', hsome, hright⟩
      obtain rfl := Option.some.inj hsome
      have hgreat := hright.greatest
      exact ⟨hends, _, hgreat, (hgath.max_eq_iff hes hgreat).mp hmax.symm⟩
    · rintro ⟨_, M, hM, hcase⟩
      refine ⟨_, rfl, ?_, ?_, havg⟩
      · rw [hmin]
        exact hgath.least hes hne
      · rw [hmax, (hgath.max_eq_iff hes hM).mpr hcase]
        exact hM
  · rw [hnone]
    constructor
    · rintro ⟨val', hval, _⟩
      cases hval
    · rintro ⟨hends, _⟩
      exact absurd hends (Nat.not_le_of_lt hlt)

/-- Times of 70 s are reported rightly, though the percentiles beside them are not. -/
theorem extremes_right_seventy :
    ∃ val', prnctlCalc [entryOf [70000, 70000], entryOf [9, 5]]
        (totalCnt [entryOf [70000, 70000], entryOf [9, 5]]) (fun _ => 0) = some val' ∧
      ExtremesRight [(entryOf [70000, 70000], [70000, 70000]), (entryOf [9, 5], [9, 5])] val' := by
  have hrun : ([70000, 70000].foldlM statsUpdate rbentInit).isSome ∧
      ([9, 5].foldlM statsUpdate rbentInit).isSome ∧
      totalCnt [entryOf [70000, 70000], entryOf [9, 5]] = 4 ∧
      allHits [entryOf [70000, 70000], entryOf [9, 5]] = 4 ∧
      hitsFront [entryOf [70000, 70000], entryOf [9, 5]] endMark = 4 := by
    decide +kernel
  obtain ⟨hfirst, hsecond, htotal, hhits, hfront⟩ := hrun
  refine (extremes_right_iff
    [(entryOf [70000, 70000], [70000, 70000]), (entryOf [9, 5], [9, 5])] _ ?_
    (by simp [allTimes]) (by simp [allTimes]) (by simp [allTimes])
    (show totalCnt [_, _] * 99 < _ by rw [htotal]; decide)
    (show allHits [_, _] < _ by rw [hhits]; decide)).mpr ⟨?_, 70000, ?_, ?_⟩
  · intro e he
    obtain rfl | he := mem_cons.mp he
    · exact entryOf_recorded (by decide) hfirst
    · rw [mem_singleton.mp he]
      exact entryOf_recorded (by decide) hsecond
  · show totalCnt [_, _] * 99 / 100 ≤ hitsFront [_, _] endMark
    rw [htotal, hfront]
    decide
  · have hall : allTimes [(entryOf [70000, 70000], [70000, 70000]), (entryOf [9, 5], [9, 5])]
        = [70000, 70000, 9, 5] := rfl
    rw [hall]
    refine ⟨by decide, fun t ht => ?_⟩
    have hle : ∀ t ∈ [70000, 70000, 9, 5], t ≤ 70000 := by decide
    exact hle t ht
  · exact .inr (.inr ⟨_, mem_cons_self, by decide⟩)

/-- With one response time of 5 ms the largest one reported is 0. -/
theorem single_time_no_maximum :
    [5].foldlM statsUpdate rbentInit = some (entryOf [5]) ∧
      ¬ ∃ val', prnctlCalc [entryOf [5]] (totalCnt [entryOf [5]]) (fun _ => 0) = some val' ∧
        ExtremesRight [(entryOf [5], [5])] val' := by
  have hrun : ([5].foldlM statsUpdate rbentInit).isSome ∧
      (prnctlCalc [entryOf [5]] (totalCnt [entryOf [5]]) (fun _ => 0)).map (· idxMax) = some 0 := by
    decide +kernel
  constructor
  · obtain ⟨rng, hrng⟩ := Option.isSome_iff_exists.mp hrun.1
    rw [entryOf, hrng, Option.getD_some]
  · rintro ⟨val', hval, hright⟩
    have hmax := hrun.2
    rw [hval] at hmax
    have hgreat := hright.greatest.2 (show 5 ∈ allTimes [(entryOf [5], [5])] by simp [allTimes])
    rw [show val' idxMax = 0 from Option.some.inj hmax] at hgreat
    exact absurd hgreat (by decide)

end Tempesta.Apm
