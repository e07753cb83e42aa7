import Tempesta.Lib.Urn
import Tempesta.Lib.Iterate

/-!
The ratio scheduler. Every server has a ratio; a call of `tfw_sched_ratio_next_srv` takes
a point off the current ratio of the server it returns. The current ratios are set back
one by one: `reidx` is the server that is next in this.
-/

namespace Tempesta.Sched

open IterLib UrnLib Function

structure TfwRatioSrvData where
  sdidx : Nat
  weight : Nat
  cratio : Nat
  oratio : Nat
  deriving DecidableEq, Repr

/-- `TfwRatioSchData` for `n` servers -/
structure TfwRatioSchData (n : Nat) where
  csidx : Fin n
  reidx : Nat
  riter : Nat
  crsum : Nat
  orsum : Nat
  deriving DecidableEq

structure TfwRatioData (n : Nat) where
  srvdata : Fin n → TfwRatioSrvData
  schdata : TfwRatioSchData n

variable {n b tail riter : Nat} {l block : List Nat}

/-- The first server, the last one, and the one before `i` -/
def firstSrv (i : Fin n) : Fin n := ⟨0, i.pos⟩

def lastSrv (i : Fin n) : Fin n := ⟨n - 1, Nat.sub_one_lt_of_lt i.isLt⟩

def prevSrv (i : Fin n) : Fin n := ⟨i - 1, Nat.lt_of_le_of_lt (Nat.sub_le i 1) i.isLt⟩

/-- `headsum2`: the sum of ratios is an `unsigned int`, the product an `unsigned long` -/
def headsum2 (srvdata : Fin n → TfwRatioSrvData) (csidx : Fin n) : Nat :=
  ((srvdata (firstSrv csidx)).cratio + (srvdata (prevSrv csidx)).cratio) % 2 ^ 32 * csidx % 2 ^ 64

def tailsum2 (srvdata : Fin n → TfwRatioSrvData) (csidx : Fin n) : Nat :=
  let last := srvdata (lastSrv csidx)
  ((srvdata csidx).cratio + if last.cratio = 0 then last.oratio else last.cratio) % 2 ^ 32 *
    (n - csidx) % 2 ^ 64

def tfwSchedRatioIsSrvTurn (s : TfwRatioData n) (csidx : Fin n) : Bool :=
  csidx.val == 0 ||
    decide (headsum2 s.srvdata csidx < tailsum2 s.srvdata csidx * s.schdata.riter % 2 ^ 64)

/-- A descriptor and the new data, or `BUG_ON` -/
inductive NextSrv (n : Nat) where
  | srv (sdidx : Nat) (s : TfwRatioData n)
  | bug

/-- `srvdata[i].cratio = cratio` -/
def setCratio (srvdata : Fin n → TfwRatioSrvData) (i : Fin n) (cratio : Nat) :
    Fin n → TfwRatioSrvData :=
  Function.update srvdata i { srvdata i with cratio := cratio }

/-- The ratio of a server is set back when it is its turn. -/
def rearm (s : TfwRatioData n) (csidx : Fin n) : TfwRatioData n :=
  if (s.srvdata csidx).cratio = 0 then
    ⟨setCratio s.srvdata csidx (s.srvdata csidx).oratio,
      { s.schdata with reidx := s.schdata.reidx + 1 }⟩
  else s

def choose (s : TfwRatioData n) (csidx : Fin n) : NextSrv n :=
  let sdidx := (s.srvdata csidx).sdidx
  let srvdata := setCratio s.srvdata csidx ((s.srvdata csidx).cratio - 1)
  let crsum := s.schdata.crsum - 1
  if crsum = 0 then
    .srv sdidx ⟨srvdata, { s.schdata with
      csidx := firstSrv csidx, riter := 1, crsum := s.schdata.orsum, reidx := 0 }⟩
  else if h : csidx + 1 < n then
    .srv sdidx ⟨srvdata, { s.schdata with csidx := ⟨csidx + 1, h⟩, crsum := crsum }⟩
  else if s.schdata.reidx ≠ n then .bug
  else .srv sdidx ⟨srvdata, { s.schdata with csidx := firstSrv csidx, riter := 1, crsum := crsum }⟩

/-- `tfw_sched_ratio_next_srv` from `retry` to `goto retry` or to its end -/
def retry (s : TfwRatioData n) : TfwRatioData n ⊕ NextSrv n :=
  let csidx := s.schdata.csidx
  if (s.srvdata csidx).cratio = 0 ∧ s.schdata.reidx ≠ csidx then
    if h : csidx + 1 < n then .inl { s with schdata := { s.schdata with csidx := ⟨csidx + 1, h⟩ } }
    else .inl { s with schdata := { s.schdata with csidx := firstSrv csidx, riter := 1 } }
  else
    let s := rearm s csidx
    if tfwSchedRatioIsSrvTurn s csidx then .inr (choose s csidx)
    else .inl { s with schdata := { s.schdata with
      csidx := firstSrv csidx, riter := (s.schdata.riter + 1) % 2 ^ 32 } }

/-- Calls of `tfw_sched_ratio_next_srv` that return the descriptors of the list -/
inductive Calls : TfwRatioData n → List Nat → TfwRatioData n → Prop
  | nil {s} : Calls s [] s
  | cons {s s' s'' sdidx l} : Ends retry s (.srv sdidx s') → Calls s' l s'' →
      Calls s (sdidx :: l) s''

/-- The scheduler data behind `tfw_sched_ratio_calc` -/
def setUp (hn : 0 < n) (srvdata : Fin n → TfwRatioSrvData) : TfwRatioData n :=
  { srvdata := fun i => { srvdata i with cratio := (srvdata i).oratio }
    schdata :=
      { csidx := ⟨0, hn⟩
        reidx := n
        riter := 1
        crsum := ∑ i, (srvdata i).oratio
        orsum := ∑ i, (srvdata i).oratio } }

/-- The ratios of `tfw_sched_ratio_calc`: `unsigned long` values, kept as `unsigned int` -/
def calcRatio (srvdata : Fin n → TfwRatioSrvData) (sumWgt : Nat) (maxValIdx si : Fin n) : Nat :=
  let maxWgt := (srvdata maxValIdx).weight
  let unit := (maxWgt + n) * maxWgt % 2 ^ 64 / sumWgt
  let oratio := unit * (srvdata si).weight % 2 ^ 64 / maxWgt
  (if oratio = 0 then 1 else oratio) % 2 ^ 32

/-- `tfw_sched_ratio_calc`, with the servers in the order `σ` of the sort that may follow -/
def tfwSchedRatioCalc (hn : 0 < n) (srvdata : Fin n → TfwRatioSrvData) (sumWgt : Nat)
    (maxValIdx : Fin n) (σ : Equiv.Perm (Fin n)) : TfwRatioData n :=
  setUp hn fun i =>
    { srvdata (σ i) with oratio := calcRatio srvdata sumWgt maxValIdx (σ i) }

/-- Servers with their ratios -/
structure Ratios (n : Nat) where
  srvdata : Fin n → TfwRatioSrvData
  ne : 0 < n
  sdidx_inj : Function.Injective fun i => (srvdata i).sdidx
  oratio_pos : ∀ i, 1 ≤ (srvdata i).oratio
  oratio_lt : ∀ i, (srvdata i).oratio < 2 ^ 32

/-- Every call ends and meets no `BUG_ON`, and every block of `orsum` calls, counted from the
start, returns each server as often as its ratio says. -/
def Proportional {n : Nat} (g : Ratios n) : Prop :=
  (∀ l s, Calls (setUp g.ne g.srvdata) l s → ∃ sdidx s', Ends retry s (.srv sdidx s')) ∧
    ∀ b l block s, Calls (setUp g.ne g.srvdata) (l ++ block) s →
      l.length = b * (setUp g.ne g.srvdata).schdata.orsum →
      block.length = (setUp g.ne g.srvdata).schdata.orsum →
      ∀ i, block.count (g.srvdata i).sdidx = (g.srvdata i).oratio

section ready
variable (s : TfwRatioData n)

/-- The server has something left of its ratio, or its ratio is set back when it is reached. -/
def Open (i : Fin n) : Prop := (s.srvdata i).cratio ≠ 0 ∨ s.schdata.reidx = i.val

instance (i : Fin n) : Decidable (Open s i) :=
  inferInstanceAs (Decidable ((s.srvdata i).cratio ≠ 0 ∨ s.schdata.reidx = i.val))

/-- The first open server from `c` on -/
def FirstOpen (c : Nat) (i : Fin n) : Prop :=
  c ≤ i.val ∧ Open s i ∧ ∀ j : Fin n, c ≤ j.val → j.val < i.val → ¬ Open s j

instance (c : Nat) (i : Fin n) : Decidable (FirstOpen s c i) :=
  inferInstanceAs (Decidable (c ≤ i.val ∧ Open s i ∧
    ∀ j : Fin n, c ≤ j.val → j.val < i.val → ¬ Open s j))

/-- It is the turn of the first open server from `csidx` on; or the first open server of all is
server 0, or its ratio and that of the last server do not add up to a multiple of `2 ^ 32`. -/
def Ready : Prop :=
  (∃ i, FirstOpen s s.schdata.csidx i ∧ tfwSchedRatioIsSrvTurn (rearm s i) i) ∨
    ∃ i, FirstOpen s 0 i ∧ (i.val = 0 ∨ tailsum2 (rearm s i).srvdata i ≠ 0)

instance : Decidable (Ready s) :=
  inferInstanceAs (Decidable
    ((∃ i, FirstOpen s s.schdata.csidx i ∧ tfwSchedRatioIsSrvTurn (rearm s i) i) ∨
      ∃ i, FirstOpen s 0 i ∧ (i.val = 0 ∨ tailsum2 (rearm s i).srvdata i ≠ 0)))

end ready

variable {r : Nat}

section left
@[simp]
lemma setCratio_sdidx {srvdata : Fin n → TfwRatioSrvData} {i j : Fin n} :
    (setCratio srvdata i r j).sdidx = (srvdata j).sdidx := by
  by_cases hij : j = i
  · rw [hij, setCratio, update_self]
  · rw [setCratio, update_of_ne hij]

@[simp]
lemma setCratio_oratio {srvdata : Fin n → TfwRatioSrvData} {i j : Fin n} :
    (setCratio srvdata i r j).oratio = (srvdata j).oratio := by
  by_cases hij : j = i
  · rw [hij, setCratio, update_self]
  · rw [setCratio, update_of_ne hij]

lemma setCratio_cratio {srvdata : Fin n → TfwRatioSrvData} {i j : Fin n} :
    (setCratio srvdata i r j).cratio = if j = i then r else (srvdata j).cratio := by
  by_cases hij : j = i
  · rw [hij, setCratio, update_self, if_pos rfl]
  · rw [setCratio, update_of_ne hij, if_neg hij]

/-- What the servers still get before all ratios are set back -/
def left (s : TfwRatioData n) (i : Fin n) : Nat :=
  if i.val < s.schdata.reidx then (s.srvdata i).cratio else (s.srvdata i).oratio

/-- The state between the rounds: servers before `reidx` are in their current turn, those from
`reidx` on wait for it with nothing left of the last one. -/
structure Inv (g : Ratios n) (s : TfwRatioData n) : Prop where
  sdidx : ∀ i, (s.srvdata i).sdidx = (g.srvdata i).sdidx
  oratio : ∀ i, (s.srvdata i).oratio = (g.srvdata i).oratio
  cratio_le : ∀ i, (s.srvdata i).cratio ≤ (g.srvdata i).oratio
  reidx_le : s.schdata.reidx ≤ n
  csidx_le : s.schdata.csidx.val ≤ s.schdata.reidx
  riter_lt : s.schdata.riter < 2 ^ 32
  used : ∀ i : Fin n, s.schdata.reidx ≤ i.val → (s.srvdata i).cratio = 0
  crsum : s.schdata.crsum = ∑ i, left s i
  crsum_pos : 0 < s.schdata.crsum
  orsum : s.schdata.orsum = ∑ i, (g.srvdata i).oratio

variable {g : Ratios n} {s : TfwRatioData n} {c : Fin n}

lemma setUp_left {g : Ratios n} :
    left (setUp g.ne g.srvdata) = fun i => (g.srvdata i).oratio := by
  funext i
  rw [left, if_pos (show i.val < (setUp g.ne g.srvdata).schdata.reidx from i.isLt)]
  rfl

lemma sum_oratio_pos (g : Ratios n) : 0 < ∑ i, (g.srvdata i).oratio := by
  have hle := Finset.single_le_sum (fun i _ => Nat.zero_le (g.srvdata i).oratio)
    (Finset.mem_univ (⟨0, g.ne⟩ : Fin n))
  exact Nat.lt_of_lt_of_le (g.oratio_pos _) hle

lemma setUp_inv (g : Ratios n) : Inv g (setUp g.ne g.srvdata) where
  sdidx _ := rfl
  oratio _ := rfl
  cratio_le _ := Nat.le_refl _
  reidx_le := Nat.le_refl n
  csidx_le := Nat.zero_le n
  riter_lt := Nat.one_lt_two_pow (by decide)
  used i hi := absurd i.isLt (Nat.not_lt.mpr hi)
  crsum := by
    rw [setUp_left]
    rfl
  crsum_pos := sum_oratio_pos g
  orsum := rfl

/-- An open server behind `rearm` -/
theorem rearm_spec (h : Inv g s) (hopen : Open s c) :
    Inv g (rearm s c) ∧ left (rearm s c) = left s ∧ ((rearm s c).srvdata c).cratio ≠ 0 ∧
      c.val < (rearm s c).schdata.reidx := by
  unfold rearm
  split
  · rename_i hzero
    have hreidx : s.schdata.reidx = c.val := hopen.resolve_left fun hne => hne hzero
    have hleft : left ⟨setCratio s.srvdata c (s.srvdata c).oratio,
        { s.schdata with reidx := s.schdata.reidx + 1 }⟩ = left s := by
      funext i
      rw [left, left, setCratio_cratio, setCratio_oratio]
      dsimp only
      by_cases hi : i = c
      · subst hi
        rw [if_pos rfl, if_pos (by omega), if_neg (by omega)]
      · have hne : i.val ≠ c.val := fun heq => hi (Fin.ext heq)
        rw [if_neg hi]
        by_cases hlt : i.val < s.schdata.reidx
        · rw [if_pos (by omega), if_pos hlt]
        · rw [if_neg (by omega), if_neg hlt]
    refine ⟨⟨?_, ?_, ?_, ?_, ?_, h.riter_lt, ?_, ?_, h.crsum_pos, h.orsum⟩, hleft, ?_, ?_⟩
    · intro i
      rw [setCratio_sdidx, h.sdidx]
    · intro i
      rw [setCratio_oratio, h.oratio]
    · intro i
      rw [setCratio_cratio]
      split
      · rename_i hi
        rw [hi, h.oratio]
      · exact h.cratio_le i
    · have := c.isLt
      dsimp only
      omega
    · have := h.csidx_le
      dsimp only
      omega
    · intro i hi
      dsimp only at hi
      rw [setCratio_cratio, if_neg (fun heq => by rw [heq] at hi; omega)]
      exact h.used i (by omega)
    · rw [hleft]
      exact h.crsum
    · have hpos := g.oratio_pos c
      rw [setCratio_cratio, if_pos rfl, h.oratio]
      omega
    · dsimp only
      omega
  · rename_i hne
    have hlt : c.val < s.schdata.reidx := by
      by_contra hle
      exact hne (h.used c (by omega))
    exact ⟨h, rfl, hne, hlt⟩

lemma choose_spec (h : Inv g s) (hne : (s.srvdata c).cratio ≠ 0) (hlt : c.val < s.schdata.reidx) :
    0 < left s c ∧ ∃ s', choose s c = .srv (g.srvdata c).sdidx s' ∧ Inv g s' ∧
      left s' = draw (fun i => (g.srvdata i).oratio) (left s) c := by
  have hpos : 0 < left s c := by
    rw [left, if_pos hlt]
    omega
  refine ⟨hpos, ?_⟩
  have hcrsum := h.crsum
  have hrest := sum_update_pred hpos
  have hleft : ∀ i, i.val < s.schdata.reidx →
      (setCratio s.srvdata c ((s.srvdata c).cratio - 1) i).cratio =
        update (left s) c (left s c - 1) i := by
    intro i hi
    rw [setCratio_cratio]
    by_cases hic : i = c
    · subst hic
      rw [if_pos rfl, update_self, left, if_pos hi]
    · rw [if_neg hic, update_of_ne hic, left, if_pos hi]
  have hupdate : ∀ sch : TfwRatioSchData n, sch.reidx = s.schdata.reidx →
      left ⟨setCratio s.srvdata c ((s.srvdata c).cratio - 1), sch⟩ =
        update (left s) c (left s c - 1) := by
    intro sch hsch
    funext i
    by_cases hi : i.val < s.schdata.reidx
    · rw [left, if_pos (by dsimp only; omega), hleft i hi]
    · have hic : i ≠ c := by
        rintro rfl
        exact hi hlt
      rw [left, if_neg (by dsimp only; omega), update_of_ne hic, left, if_neg hi,
        setCratio_oratio]
  have hle : ∀ i, (setCratio s.srvdata c ((s.srvdata c).cratio - 1) i).cratio ≤
      (g.srvdata i).oratio := by
    intro i
    have hi := h.cratio_le i
    rw [setCratio_cratio]
    split
    · rename_i hic
      rw [hic] at hi ⊢
      omega
    · exact hi
  have hinv : ∀ sch : TfwRatioSchData n, sch.reidx = s.schdata.reidx →
      sch.csidx.val ≤ s.schdata.reidx → sch.riter < 2 ^ 32 → sch.orsum = s.schdata.orsum →
      sch.crsum = s.schdata.crsum - 1 → 0 < sch.crsum →
      Inv g ⟨setCratio s.srvdata c ((s.srvdata c).cratio - 1), sch⟩ := by
    intro sch hreidx hcsidx hriter horsum hsum hsumpos
    refine ⟨?_, ?_, hle, ?_, ?_, hriter, ?_, ?_, hsumpos, horsum.trans h.orsum⟩
    · intro i
      rw [setCratio_sdidx, h.sdidx]
    · intro i
      rw [setCratio_oratio, h.oratio]
    · rw [hreidx]
      exact h.reidx_le
    · rw [hreidx]
      exact hcsidx
    · intro i hi
      rw [hreidx] at hi
      rw [setCratio_cratio, if_neg (fun heq => by rw [heq] at hi; omega)]
      exact h.used i hi
    · rw [hupdate sch hreidx, hrest, ← hcrsum]
      exact hsum
  unfold choose
  rw [h.sdidx]
  dsimp only
  split
  · rename_i hzero
    have hsum : ∑ i, left s i = 1 := by
      have := h.crsum_pos
      omega
    have hreset : ∀ sch : TfwRatioSchData n, sch.reidx = 0 →
        left ⟨setCratio s.srvdata c ((s.srvdata c).cratio - 1), sch⟩ =
          fun i => (g.srvdata i).oratio := by
      intro sch hsch
      funext i
      rw [left, if_neg (by dsimp only; omega), setCratio_oratio, h.oratio]
    refine ⟨_, rfl, ⟨?_, ?_, hle, Nat.zero_le n, Nat.le_refl 0, Nat.one_lt_two_pow (by decide), ?_,
      ?_, ?_, h.orsum⟩, ?_⟩
    · intro i
      rw [setCratio_sdidx, h.sdidx]
    · intro i
      rw [setCratio_oratio, h.oratio]
    · intro i _
      have hi : update (left s) c (left s c - 1) i = 0 :=
        Finset.sum_eq_zero_iff.mp (hrest.trans (by omega)) i (Finset.mem_univ i)
      by_cases hreidx : i.val < s.schdata.reidx
      · rw [hleft i hreidx, hi]
      · have hic : i ≠ c := by
          rintro rfl
          exact hreidx hlt
        have hoff := g.oratio_pos i
        rw [update_of_ne hic, left, if_neg hreidx, h.oratio] at hi
        omega
    · rw [hreset _ rfl]
      exact h.orsum
    · exact Nat.lt_of_lt_of_eq (sum_oratio_pos g) h.orsum.symm
    · rw [draw_of_one hpos hsum, hreset _ rfl]
  · rename_i hnonzero
    have hdraw : draw (fun i => (g.srvdata i).oratio) (left s) c =
        update (left s) c (left s c - 1) :=
      draw_of_lt hpos (by omega)
    rw [hdraw]
    split
    · exact ⟨_, rfl, hinv _ rfl hlt h.riter_lt rfl rfl (by dsimp only; omega), hupdate _ rfl⟩
    · split
      · rename_i hend hbug
        have := h.reidx_le
        omega
      · exact ⟨_, rfl, hinv _ rfl (Nat.zero_le _) (Nat.one_lt_two_pow (by decide)) rfl rfl
          (by dsimp only; omega), hupdate _ rfl⟩

def wrap (s : TfwRatioData n) : TfwRatioData n :=
  { s with schdata := { s.schdata with csidx := firstSrv s.schdata.csidx, riter := 1 } }

def advance (s : TfwRatioData n) : TfwRatioData n :=
  if h : s.schdata.csidx + 1 < n then
    { s with schdata := { s.schdata with csidx := ⟨s.schdata.csidx + 1, h⟩ } }
  else wrap s

def restart (s : TfwRatioData n) : TfwRatioData n :=
  { s with schdata := { s.schdata with
    csidx := firstSrv s.schdata.csidx, riter := (s.schdata.riter + 1) % 2 ^ 32 } }

lemma retry_of_closed (h : ¬ Open s s.schdata.csidx) : retry s = .inl (advance s) := by
  obtain ⟨hzero, hne⟩ := not_or.mp h
  rw [retry, if_pos ⟨not_not.mp hzero, hne⟩, advance]
  split <;> rfl

lemma rearm_csidx : (rearm s c).schdata.csidx = s.schdata.csidx := by
  unfold rearm
  split <;> rfl

lemma rearm_riter : (rearm s c).schdata.riter = s.schdata.riter := by
  unfold rearm
  split <;> rfl

lemma retry_of_open (hc : s.schdata.csidx = c) (h : Open s c) :
    retry s = if tfwSchedRatioIsSrvTurn (rearm s c) c then .inr (choose (rearm s c) c)
      else .inl (restart (rearm s c)) := by
  subst hc
  rw [retry, if_neg (fun hand => h.elim (fun hne => hne hand.1) fun heq => hand.2 heq), restart,
    rearm_csidx]

lemma wrap_inv (h : Inv g s) : Inv g (wrap s) ∧ left (wrap s) = left s :=
  ⟨{ h with csidx_le := Nat.zero_le _, riter_lt := Nat.one_lt_two_pow (by decide) }, rfl⟩

lemma advance_inv (h : Inv g s) (hclosed : ¬ Open s s.schdata.csidx) :
    Inv g (advance s) ∧ left (advance s) = left s := by
  have hne : s.schdata.reidx ≠ s.schdata.csidx.val := fun heq => hclosed (.inr heq)
  have hle := h.csidx_le
  unfold advance
  split
  · exact ⟨{ h with csidx_le := by dsimp only; omega }, rfl⟩
  · exact wrap_inv h

lemma restart_inv (h : Inv g s) : Inv g (restart s) ∧ left (restart s) = left s :=
  ⟨{ h with csidx_le := Nat.zero_le _, riter_lt := Nat.mod_lt _ (by decide) }, rfl⟩

lemma ends_spec {r : NextSrv n} (h : Inv g s) (hends : Ends retry s r) :
    ∃ i s', r = .srv (g.srvdata i).sdidx s' ∧ 0 < left s i ∧ Inv g s' ∧
      left s' = draw (fun i => (g.srvdata i).oratio) (left s) i := by
  have hspec := hends.invariant (I := fun t => Inv g t ∧ left t = left s)
    (Q := fun r => ∃ i s', r = .srv (g.srvdata i).sdidx s' ∧ 0 < left s i ∧ Inv g s' ∧
      left s' = draw (fun i => (g.srvdata i).oratio) (left s) i)
  refine hspec ?_ ?_ ⟨h, rfl⟩
  · rintro t t' ⟨ht, hleft⟩ hround
    by_cases hopen : Open t t.schdata.csidx
    · obtain ⟨harmed, hsame, -⟩ := rearm_spec ht hopen
      rw [retry_of_open rfl hopen] at hround
      split at hround
      · cases hround
      · cases hround
        exact ⟨(restart_inv harmed).1, (restart_inv harmed).2.trans (hsame.trans hleft)⟩
    · rw [retry_of_closed hopen] at hround
      cases hround
      exact ⟨(advance_inv ht hopen).1, (advance_inv ht hopen).2.trans hleft⟩
  · rintro t r ⟨ht, hleft⟩ hround
    by_cases hopen : Open t t.schdata.csidx
    · obtain ⟨harmed, hsame, hne, hlt⟩ := rearm_spec ht hopen
      rw [retry_of_open rfl hopen] at hround
      split at hround
      · obtain ⟨hpos, s', hchoose, hinv, hdraw⟩ := choose_spec harmed hne hlt
        rw [hchoose] at hround
        cases hround
        rw [hsame, hleft] at hpos hdraw
        exact ⟨_, s', rfl, hpos, hinv, hdraw⟩
      · cases hround
    · rw [retry_of_closed hopen] at hround
      cases hround

lemma calls_spec {s' : TfwRatioData n} (hcalls : Calls s l s') (h : Inv g s) :
    Inv g s' ∧ ∃ is, l = is.map (fun i => (g.srvdata i).sdidx) ∧
      Draws (fun i => (g.srvdata i).oratio) (left s) is (left s') := by
  induction hcalls with
  | nil => exact ⟨h, [], rfl, .nil⟩
  | cons hends _ ih =>
    obtain ⟨i, s₁, heq, hpos, hinv, hdraw⟩ := ends_spec h hends
    cases heq
    obtain ⟨hinv', is, rfl, hdraws⟩ := ih hinv
    rw [hdraw] at hdraws
    exact ⟨hinv', i :: is, rfl, .cons hpos hdraws⟩

lemma count_of_calls (hcalls : Calls (setUp g.ne g.srvdata) (l ++ block) s)
    (hl : l.length = b * (setUp g.ne g.srvdata).schdata.orsum)
    (hblock : block.length = (setUp g.ne g.srvdata).schdata.orsum) (i : Fin n) :
    block.count (g.srvdata i).sdidx = (g.srvdata i).oratio := by
  obtain ⟨-, is, heq, hdraws⟩ := calls_spec hcalls (setUp_inv g)
  rw [setUp_left] at hdraws
  obtain ⟨is₁, is₂, rfl, hl', hblock'⟩ := List.append_eq_map_iff.mp heq
  obtain ⟨mid, hfirst, hsecond⟩ := hdraws.append
  have hpos := sum_oratio_pos g
  rw [← hl', List.length_map] at hl
  rw [← hblock', List.length_map] at hblock
  rw [hfirst.blocks hpos hl] at hsecond
  have hne : is₂ ≠ [] := by
    rintro rfl
    exact absurd hpos (Nat.not_lt.mpr (Nat.le_of_eq hblock.symm))
  rw [← hblock', List.count_map_of_injective _ _ g.sdidx_inj]
  exact (hsecond.emptied hne hblock).2 i

end left

section ends
variable {g : Ratios n} {s : TfwRatioData n} {c i j : Fin n} {r : NextSrv n}

/-- `cratio ? : oratio` -/
def ratio (d : TfwRatioSrvData) : Nat := if d.cratio = 0 then d.oratio else d.cratio

lemma ratio_rearm : ratio ((rearm s c).srvdata i) = ratio (s.srvdata i) := by
  unfold rearm
  split
  · rename_i hzero
    rw [ratio, setCratio_cratio, setCratio_oratio]
    by_cases hi : i = c
    · subst hi
      rw [if_pos rfl, ite_self, ratio, if_pos hzero]
    · rw [if_neg hi, ratio]
  · rfl

lemma tailsum2_rearm {s : TfwRatioData n} {j : Fin n} :
    tailsum2 (rearm s j).srvdata j =
      (ratio (s.srvdata j) + ratio (s.srvdata (lastSrv j))) % 2 ^ 32 * (n - j) % 2 ^ 64 := by
  have hself : ((rearm s j).srvdata j).cratio = ratio (s.srvdata j) := by
    unfold rearm
    split
    · rename_i hzero
      rw [setCratio_cratio, if_pos rfl, ratio, if_pos hzero]
    · rename_i hne
      rw [ratio, if_neg hne]
  have hlast : ratio ((rearm s j).srvdata (lastSrv j)) = ratio (s.srvdata (lastSrv j)) :=
    ratio_rearm
  rw [tailsum2, hself, ← hlast]
  rfl

lemma open_rearm (hc : Open s c) (hpos : 1 ≤ (s.srvdata c).oratio) (hi : i.val ≤ c.val) :
    Open (rearm s c) i ↔ Open s i := by
  unfold rearm
  split
  · rename_i hzero
    have hreidx : s.schdata.reidx = c.val := hc.resolve_left fun hne => hne hzero
    unfold Open
    rw [setCratio_cratio]
    dsimp only
    by_cases hic : i = c
    · subst hic
      rw [if_pos rfl]
      exact ⟨fun _ => .inr hreidx, fun _ => .inl (by omega)⟩
    · have hne : i.val ≠ c.val := fun heq => hic (Fin.ext heq)
      rw [if_neg hic]
      constructor
      · rintro (h | h)
        · exact .inl h
        · omega
      · rintro (h | h)
        · exact .inl h
        · omega
  · rfl

lemma FirstOpen.rearm (h : FirstOpen s 0 j) (hc : Open s c) (hpos : 1 ≤ (s.srvdata c).oratio)
    (hj : j.val ≤ c.val) : FirstOpen (rearm s c) 0 j := by
  refine ⟨Nat.zero_le _, (open_rearm hc hpos hj).mpr h.2.1, ?_⟩
  intro i _ hi hopen
  exact h.2.2 i (Nat.zero_le _) hi ((open_rearm hc hpos (by omega)).mp hopen)

/-- `csidx` at the server `c` -/
def seek (s : TfwRatioData n) (c : Fin n) : TfwRatioData n :=
  { s with schdata := { s.schdata with csidx := c } }

lemma ends_seek (h : FirstOpen s s.schdata.csidx i) :
    Ends retry s r ↔ Ends retry (seek s i) r := by
  obtain ⟨hle, hopen, hclosed⟩ := h
  obtain ⟨d, hd⟩ := Nat.exists_eq_add_of_le hle
  induction d generalizing s with
  | zero =>
    have hi : s.schdata.csidx = i := Fin.ext hd.symm
    rw [← hi]
    rfl
  | succ d ih =>
    have hlt := i.isLt
    have hnext : s.schdata.csidx + 1 < n := by omega
    have hadvance : advance s = seek s ⟨s.schdata.csidx + 1, hnext⟩ := by
      rw [advance, dif_pos hnext]
      rfl
    have hround := retry_of_closed (hclosed s.schdata.csidx (Nat.le_refl _) (by omega))
    rw [hadvance] at hround
    rw [Ends.next_iff hround]
    refine ih ?_ hopen ?_ ?_
    · show s.schdata.csidx.val + 1 ≤ i.val
      omega
    · intro j hj hji
      exact hclosed j (Nat.le_of_succ_le hj) hji
    · show i.val = s.schdata.csidx.val + 1 + d
      omega

lemma ends_wrap (h : ∀ i : Fin n, s.schdata.csidx.val ≤ i.val → ¬ Open s i) :
    Ends retry s r ↔ Ends retry (wrap s) r := by
  have hlt := s.schdata.csidx.isLt
  obtain ⟨d, hd⟩ := Nat.exists_eq_add_of_lt hlt
  induction d generalizing s with
  | zero =>
    have hround := retry_of_closed (h s.schdata.csidx (Nat.le_refl _))
    rw [advance, dif_neg (by omega)] at hround
    exact Ends.next_iff hround
  | succ d ih =>
    have hnext : s.schdata.csidx + 1 < n := by omega
    have hround := retry_of_closed (h s.schdata.csidx (Nat.le_refl _))
    rw [advance, dif_pos hnext] at hround
    rw [Ends.next_iff hround]
    refine ih ?_ hnext ?_
    · intro i hi
      exact h i (Nat.le_of_succ_le hi)
    · show n = s.schdata.csidx.val + 1 + d + 1
      omega

lemma headsum2_of_first (h : FirstOpen s 0 j) (hj : j.val ≠ 0) :
    headsum2 (rearm s j).srvdata j = 0 := by
  have hzero : ∀ i : Fin n, i.val < j.val → ((rearm s j).srvdata i).cratio = 0 := by
    intro i hi
    have hclosed := not_or.mp (h.2.2 i (Nat.zero_le _) hi)
    have hne : i ≠ j := fun heq => by rw [heq] at hi; omega
    unfold rearm
    split
    · rw [setCratio_cratio, if_neg hne]
      exact not_not.mp hclosed.1
    · exact not_not.mp hclosed.1
  rw [headsum2, hzero (firstSrv j) (Nat.pos_of_ne_zero hj),
    hzero (prevSrv j) (show j.val - 1 < j.val by omega)]
  simp

lemma turn_of_first (h : FirstOpen s 0 j) (hj : j.val ≠ 0) :
    tfwSchedRatioIsSrvTurn (rearm s j) j =
      decide (0 < tailsum2 (rearm s j).srvdata j * s.schdata.riter % 2 ^ 64) := by
  rw [tfwSchedRatioIsSrvTurn, beq_false_of_ne hj, Bool.false_or, headsum2_of_first h hj,
    rearm_riter]

/-- The rounds of a call in which the first open server is waited for -/
structure Waiting (g : Ratios n) (j : Fin n) (tail : Nat) (s : TfwRatioData n) : Prop where
  inv : Inv g s
  csidx_le : s.schdata.csidx.val ≤ j.val
  first : FirstOpen s 0 j
  tail_eq : tailsum2 (rearm s j).srvdata j = tail

lemma Waiting.next (h : Waiting g j tail s) (hlt : s.schdata.csidx.val < j.val) :
    retry s = .inl (advance s) ∧ Waiting g j tail (advance s) ∧
      (advance s).schdata.riter = s.schdata.riter ∧
      (advance s).schdata.csidx.val = s.schdata.csidx.val + 1 := by
  have hclosed := h.first.2.2 s.schdata.csidx (Nat.zero_le _) hlt
  have hinv := (advance_inv h.inv hclosed).1
  have hnext : s.schdata.csidx + 1 < n := by
    have := j.isLt
    omega
  refine ⟨retry_of_closed hclosed, ?_⟩
  rw [advance, dif_pos hnext] at hinv ⊢
  refine ⟨⟨hinv, hlt, h.first, ?_⟩, rfl, rfl⟩
  rw [← h.tail_eq, tailsum2_rearm, tailsum2_rearm]

lemma Waiting.arrived (h : Waiting g j tail s) (hj : j.val ≠ 0) (hc : s.schdata.csidx = j) :
    retry s = (if 0 < tail * s.schdata.riter % 2 ^ 64 then .inr (choose (rearm s j) j)
      else .inl (restart (rearm s j))) ∧ Waiting g j tail (restart (rearm s j)) := by
  obtain ⟨harmed, -, -, -⟩ := rearm_spec h.inv h.first.2.1
  have hpos : 1 ≤ (s.srvdata j).oratio := by
    rw [h.inv.oratio]
    exact g.oratio_pos j
  have hfirst := h.first.rearm h.first.2.1 hpos (Nat.le_refl _)
  constructor
  · rw [retry_of_open hc h.first.2.1, turn_of_first h.first hj, h.tail_eq]
    simp only [decide_eq_true_eq]
  · refine ⟨(restart_inv harmed).1, Nat.zero_le _, hfirst, ?_⟩
    rw [← h.tail_eq, tailsum2_rearm, tailsum2_rearm]
    have hratio : ∀ i, ratio ((restart (rearm s j)).srvdata i) = ratio (s.srvdata i) :=
      fun i => ratio_rearm
    rw [hratio, hratio]

lemma Waiting.not_ends (h : Waiting g j 0 s) (hj : j.val ≠ 0) : ¬ Ends retry s r := by
  intro hends
  refine hends.invariant (I := Waiting g j 0) (Q := fun _ => False) ?_ ?_ h
  · intro t t' ht hround
    by_cases hc : t.schdata.csidx = j
    · obtain ⟨hretry, hwait⟩ := ht.arrived hj hc
      rw [Nat.zero_mul, if_neg (by decide), hround] at hretry
      cases hretry
      exact hwait
    · have hlt : t.schdata.csidx.val < j.val :=
        Nat.lt_of_le_of_ne ht.csidx_le fun heq => hc (Fin.ext heq)
      obtain ⟨hretry, hwait, -⟩ := ht.next hlt
      rw [hround] at hretry
      cases hretry
      exact hwait
  · intro t r ht hround
    by_cases hc : t.schdata.csidx = j
    · obtain ⟨hretry, -⟩ := ht.arrived hj hc
      rw [Nat.zero_mul, if_neg (by decide), hround] at hretry
      cases hretry
    · have hlt : t.schdata.csidx.val < j.val :=
        Nat.lt_of_le_of_ne ht.csidx_le fun heq => hc (Fin.ext heq)
      obtain ⟨hretry, -⟩ := ht.next hlt
      rw [hround] at hretry
      cases hretry

/-- How many iterations it takes to `riter = 1` -/
def toOne (riter : Nat) : Nat := if riter ≤ 1 then 1 - riter else 2 ^ 32 + 1 - riter

lemma toOne_succ (hlt : riter < 2 ^ 32) (hne : riter ≠ 1) :
    toOne ((riter + 1) % 2 ^ 32) + 1 = toOne riter := by
  unfold toOne
  by_cases hwrap : riter + 1 = 2 ^ 32
  · rw [hwrap, Nat.mod_self, if_pos (by decide), if_neg (by omega)]
    omega
  · rw [Nat.mod_eq_of_lt (by omega)]
    split <;> split <;> omega

lemma Waiting.ends (h : Waiting g j tail s) (hj : j.val ≠ 0) (htail : tail ≠ 0)
    (hlt : tail < 2 ^ 64) : ∃ r, Ends retry s r := by
  let measure (t : TfwRatioData n) := toOne t.schdata.riter * n + (j.val - t.schdata.csidx.val)
  have hstep : ∀ t t', Waiting g j tail t → retry t = .inl t' →
      Waiting g j tail t' ∧ measure t' < measure t := by
    intro t t' ht hround
    by_cases hc : t.schdata.csidx = j
    · obtain ⟨hretry, hwait⟩ := ht.arrived hj hc
      rw [hround] at hretry
      split at hretry
      · cases hretry
      · rename_i hfail
        cases hretry
        refine ⟨hwait, ?_⟩
        have hone : t.schdata.riter ≠ 1 := by
          intro hone
          rw [hone, Nat.mul_one, Nat.mod_eq_of_lt hlt] at hfail
          omega
        have hsucc := toOne_succ ht.inv.riter_lt hone
        have hriter : (restart (rearm t j)).schdata.riter = (t.schdata.riter + 1) % 2 ^ 32 := by
          rw [restart, rearm_riter]
        have hj' := j.isLt
        simp only [measure]
        rw [hriter, ← hsucc, Nat.succ_mul]
        omega
    · have hlt : t.schdata.csidx.val < j.val :=
        Nat.lt_of_le_of_ne ht.csidx_le fun heq => hc (Fin.ext heq)
      obtain ⟨hretry, hwait, hriter, hcsidx⟩ := ht.next hlt
      rw [hround] at hretry
      cases hretry
      refine ⟨hwait, ?_⟩
      simp only [measure]
      rw [hriter, hcsidx]
      omega
  obtain ⟨r, -, hends⟩ := iterate_ends hstep h (Nat.lt_succ_self _)
  exact ⟨r, hends⟩

lemma exists_firstOpen {c : Nat} (hc : c ≤ i.val) (hi : Open s i) : ∃ j, FirstOpen s c j := by
  have hex : ∃ k, ∃ j : Fin n, j.val = k ∧ c ≤ j.val ∧ Open s j := ⟨i.val, i, rfl, hc, hi⟩
  classical
  obtain ⟨j, hj, hle, hopen⟩ := Nat.find_spec hex
  refine ⟨j, hle, hopen, ?_⟩
  intro k hk hlt hk'
  exact Nat.find_min hex (hj ▸ hlt) ⟨k, rfl, hk, hk'⟩

/-- Something is left as long as `crsum` is positive. -/
theorem Inv.exists_first (h : Inv g s) : ∃ j, FirstOpen s 0 j := by
  by_contra hnone
  have hclosed : ∀ i, ¬ Open s i := fun i hi => hnone (exists_firstOpen (Nat.zero_le _) hi)
  have hreidx : s.schdata.reidx = n := by
    by_contra hne
    have hle := h.reidx_le
    exact hclosed ⟨s.schdata.reidx, by omega⟩ (.inr rfl)
  have hzero : ∑ i, left s i = 0 := by
    apply Finset.sum_eq_zero
    intro i _
    rw [left, if_pos (by rw [hreidx]; exact i.isLt)]
    exact not_not.mp (not_or.mp (hclosed i)).1
  have hpos := h.crsum_pos
  rw [h.crsum, hzero] at hpos
  omega

lemma Inv.seek (h : Inv g s) (hc : Open s c) : Inv g (seek s c) := by
  refine { h with csidx_le := ?_ }
  show c.val ≤ s.schdata.reidx
  by_contra hlt
  obtain hne | heq := hc
  · exact hne (h.used c (by omega))
  · omega

lemma turn_seek : tfwSchedRatioIsSrvTurn (rearm (seek s c) c) c =
    tfwSchedRatioIsSrvTurn (rearm s c) c := by
  unfold rearm
  split <;> split
  · rfl
  · contradiction
  · contradiction
  · rfl

lemma retry_seek (hc : Open s c) :
    retry (seek s c) = if tfwSchedRatioIsSrvTurn (rearm s c) c then
        .inr (choose (rearm (seek s c) c) c)
      else .inl (restart (rearm (seek s c) c)) := by
  rw [← turn_seek]
  exact retry_of_open rfl hc

lemma ends_of_turn (hfirst : FirstOpen s s.schdata.csidx i)
    (hturn : tfwSchedRatioIsSrvTurn (rearm s i) i) : ∃ r, Ends retry s r := by
  have hround : retry (seek s i) = .inr (choose (rearm (seek s i) i) i) := by
    rw [retry_seek hfirst.2.1, if_pos hturn]
  exact ⟨_, (ends_seek hfirst).mpr (.stop hround)⟩

lemma ends_of_not_turn (h : Inv g s)
    (hturn : ∀ i, FirstOpen s s.schdata.csidx i → ¬ tfwSchedRatioIsSrvTurn (rearm s i) i)
    (hfirst : FirstOpen s 0 j) :
    ∃ t, t.schdata.csidx.val = 0 ∧ Waiting g j (tailsum2 (rearm s j).srvdata j) t ∧
      ∀ r, Ends retry s r ↔ Ends retry t r := by
  by_cases hopen : ∃ i : Fin n, s.schdata.csidx.val ≤ i.val ∧ Open s i
  · obtain ⟨i, hi, hopen⟩ := hopen
    obtain ⟨c, hc⟩ := exists_firstOpen hi hopen
    have hinv := h.seek hc.2.1
    have hpos : 1 ≤ (s.srvdata c).oratio := by
      rw [h.oratio]
      exact g.oratio_pos c
    have hjc : j.val ≤ c.val := by
      by_contra hlt
      exact hfirst.2.2 c (Nat.zero_le _) (by omega) hc.2.1
    have harmed := (rearm_spec hinv hc.2.1).1
    refine ⟨restart (rearm (seek s c) c), rfl, ⟨(restart_inv harmed).1, Nat.zero_le _, ?_, ?_⟩, ?_⟩
    · exact FirstOpen.rearm (s := seek s c) hfirst hc.2.1 hpos hjc
    · have hratio : ∀ i, ratio ((restart (rearm (seek s c) c)).srvdata i) = ratio (s.srvdata i) :=
        fun i => @ratio_rearm n (seek s c) c i
      rw [tailsum2_rearm, tailsum2_rearm, hratio, hratio]
    · intro r
      have hround : retry (seek s c) = .inl (restart (rearm (seek s c) c)) := by
        rw [retry_seek hc.2.1, if_neg (hturn c hc)]
      exact (ends_seek hc).trans (Ends.next_iff hround)
  · have hclosed : ∀ i : Fin n, s.schdata.csidx.val ≤ i.val → ¬ Open s i :=
      fun i hi hi' => hopen ⟨i, hi, hi'⟩
    refine ⟨wrap s, rfl, ⟨(wrap_inv h).1, Nat.zero_le _, hfirst, ?_⟩, fun r => ends_wrap hclosed⟩
    rw [tailsum2_rearm, tailsum2_rearm]
    rfl

lemma ends_iff_ready (h : Inv g s) : (∃ r, Ends retry s r) ↔ Ready s := by
  constructor
  · rintro ⟨r, hends⟩
    by_contra hready
    obtain ⟨hturn, hnone⟩ := not_or.mp hready
    obtain ⟨j, hj⟩ := h.exists_first
    obtain ⟨t, -, hwait, hiff⟩ :=
      ends_of_not_turn h (fun i hi hi' => hturn ⟨i, hi, hi'⟩) hj
    have hzero : tailsum2 (rearm s j).srvdata j = 0 := by
      by_contra hne
      exact hnone ⟨j, hj, .inr hne⟩
    rw [hzero] at hwait
    exact hwait.not_ends (fun h0 => hnone ⟨j, hj, .inl h0⟩) ((hiff r).mp hends)
  · intro hready
    by_cases hturn : ∃ i, FirstOpen s s.schdata.csidx i ∧ tfwSchedRatioIsSrvTurn (rearm s i) i
    · obtain ⟨i, hfirst, hi⟩ := hturn
      exact ends_of_turn hfirst hi
    · obtain ⟨j, hj, hj'⟩ := hready.resolve_left hturn
      obtain ⟨t, ht, hwait, hiff⟩ := ends_of_not_turn h (fun i hi hi' => hturn ⟨i, hi, hi'⟩) hj
      by_cases h0 : j.val = 0
      · have hround : retry t = .inr (choose (rearm t j) j) := by
          rw [retry_of_open (Fin.ext (ht.trans h0.symm)) hwait.first.2.1,
            tfwSchedRatioIsSrvTurn, h0]
          rfl
        exact ⟨_, (hiff _).mpr (.stop hround)⟩
      · obtain ⟨r, hends⟩ := hwait.ends h0 (hj'.resolve_left h0) (Nat.mod_lt _ (by decide))
        exact ⟨r, (hiff r).mpr hends⟩

end ends

lemma proportional_of_ready {g : Ratios n} (h : ∀ l s, Calls (setUp g.ne g.srvdata) l s → Ready s) :
    Proportional g := by
  refine ⟨?_, fun b l block s hcalls hl hblock i => count_of_calls hcalls hl hblock i⟩
  intro l s hcalls
  have hinv := (calls_spec hcalls (setUp_inv g)).1
  obtain ⟨r, hends⟩ := (ends_iff_ready hinv).mpr (h l s hcalls)
  obtain ⟨i, s', rfl, -⟩ := ends_spec hinv hends
  exact ⟨_, s', hends⟩

/-- The scheduler is proportional if and only if every call finds a server. -/
theorem proportional_iff {n : Nat} (g : Ratios n) :
    Proportional g ↔ ∀ l s, Calls (setUp g.ne g.srvdata) l s → Ready s := by
  refine ⟨?_, proportional_of_ready⟩
  intro h l s hcalls
  obtain ⟨sdidx, s', hends⟩ := h.1 l s hcalls
  exact (ends_iff_ready (calls_spec hcalls (setUp_inv g)).1).mp ⟨_, hends⟩

variable {g : Ratios n}

lemma ratio_bounds {s : TfwRatioData n} (h : Inv g s) (i : Fin n) :
    1 ≤ ratio (s.srvdata i) ∧ ratio (s.srvdata i) ≤ (g.srvdata i).oratio := by
  have hpos := g.oratio_pos i
  have hle := h.cratio_le i
  unfold ratio
  split
  · rw [h.oratio]
    exact ⟨hpos, Nat.le_refl _⟩
  · omega

/-- No sum of two ratios below `2 ^ 31` is a multiple of `2 ^ 32`. -/
theorem proportional_of_lt (hn : n < 2 ^ 32) (h : ∀ i, (g.srvdata i).oratio < 2 ^ 31) :
    Proportional g := by
  apply proportional_of_ready
  intro l s hcalls
  have hinv := (calls_spec hcalls (setUp_inv g)).1
  obtain ⟨j, hj⟩ := hinv.exists_first
  have hself := ratio_bounds hinv j
  have hlast := ratio_bounds hinv (lastSrv j)
  have hlt := h j
  have hlt' := h (lastSrv j)
  have hjn := j.isLt
  have hsum : ratio (s.srvdata j) + ratio (s.srvdata (lastSrv j)) < 2 ^ 32 := by omega
  have hprod : (ratio (s.srvdata j) + ratio (s.srvdata (lastSrv j))) * (n - j) < 2 ^ 64 := by
    calc _ < 2 ^ 32 * 2 ^ 32 := Nat.mul_lt_mul'' hsum (by omega)
      _ = 2 ^ 64 := by decide
  refine .inr ⟨j, hj, .inr ?_⟩
  rw [tailsum2_rearm, Nat.mod_eq_of_lt hsum, Nat.mod_eq_of_lt hprod]
  exact Nat.mul_ne_zero (by omega) (by omega)

lemma calcRatio_bounds {srvdata : Fin n → TfwRatioSrvData} {m i : Fin n}
    (hpos : 1 ≤ (srvdata m).weight) (hle : (srvdata i).weight ≤ (srvdata m).weight)
    (hlt : (srvdata m).weight + n < 2 ^ 31) :
    1 ≤ calcRatio srvdata (∑ i, (srvdata i).weight) m i ∧
      calcRatio srvdata (∑ i, (srvdata i).weight) m i ≤ (srvdata m).weight + n := by
  have hsum := Finset.single_le_sum (fun i _ => Nat.zero_le (srvdata i).weight) (Finset.mem_univ m)
  have hunit : ((srvdata m).weight + n) * (srvdata m).weight % 2 ^ 64 / ∑ i, (srvdata i).weight ≤
      (srvdata m).weight + n := by
    calc _ ≤ ((srvdata m).weight + n) * (srvdata m).weight / (srvdata m).weight :=
          Nat.div_le_div (Nat.mod_le _ _) hsum (by omega)
      _ = (srvdata m).weight + n := Nat.mul_div_cancel _ hpos
  rw [calcRatio]
  generalize _ % 2 ^ 64 / ∑ i, (srvdata i).weight = unit at hunit
  have hratio : unit * (srvdata i).weight % 2 ^ 64 / (srvdata m).weight ≤ unit := by
    calc _ ≤ unit * (srvdata m).weight / (srvdata m).weight :=
          Nat.div_le_div_right ((Nat.mod_le _ _).trans (Nat.mul_le_mul_left unit hle))
      _ = unit := Nat.mul_div_cancel _ hpos
  generalize _ / (srvdata m).weight = oratio at hratio
  split
  · omega
  · rw [Nat.mod_eq_of_lt (by omega)]
    omega

/-- The ratios of servers with weights that are not out of all proportion; the configuration
has weights from 1 to 100. -/
theorem calc_proportional {srvdata : Fin n → TfwRatioSrvData} {m : Fin n}
    (hinj : Function.Injective fun i => (srvdata i).sdidx)
    (hpos : 1 ≤ (srvdata m).weight) (hmax : ∀ i, (srvdata i).weight ≤ (srvdata m).weight)
    (hlt : (srvdata m).weight + n < 2 ^ 31) (σ : Equiv.Perm (Fin n)) :
    ∃ g : Ratios n, Proportional g ∧ setUp g.ne g.srvdata =
      tfwSchedRatioCalc m.pos srvdata (∑ i, (srvdata i).weight) m σ := by
  have hbounds := fun i => calcRatio_bounds hpos (hmax (σ i)) hlt
  refine ⟨⟨_, m.pos, ?_, fun i => (hbounds i).1, fun i => ?_⟩, ?_, rfl⟩
  · exact hinj.comp σ.injective
  · exact Nat.lt_of_le_of_lt (hbounds i).2 (by omega)
  · exact proportional_of_lt (by omega) fun i => Nat.lt_of_le_of_lt (hbounds i).2 hlt

/-- Two servers with the ratios 1 and `2 ^ 31` -/
def halfRange : Ratios 2 where
  srvdata i := { sdidx := i, weight := 1, cratio := 0, oratio := if i = 0 then 1 else 2 ^ 31 }
  ne := by decide
  sdidx_inj := Fin.val_injective
  oratio_pos := by decide
  oratio_lt := by decide

/-- The second call does not end: the ratio of the second server, taken twice, is `2 ^ 32`. -/
theorem halfRange_not_proportional : ¬ Proportional halfRange := by
  intro h
  have hfirst : ∃ s, Calls (setUp halfRange.ne halfRange.srvdata) [0] s ∧ ¬ Ready s := by
    refine ⟨_, .cons (.stop rfl) .nil, ?_⟩
    decide
  obtain ⟨s, hcalls, hready⟩ := hfirst
  obtain ⟨sdidx, s', hends⟩ := h.1 [0] s hcalls
  exact hready ((ends_iff_ready (calls_spec hcalls (setUp_inv halfRange)).1).mp ⟨_, hends⟩)

end Tempesta.Sched
