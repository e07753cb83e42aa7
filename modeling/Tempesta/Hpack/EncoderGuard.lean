import Tempesta.Lib.Run
import Tempesta.Hpack.EncoderTable

/-!
The guard of the encoder table. Responses of one connection look up and add
headers under the lock of the table; the guard decides who may add: it counts
the responses that hold an index, and is -1 while one of them has added a
header. `tfw_hpack_enc_release` runs without the lock, so its reading of the
guard and its update are two steps here, between which other responses may run.
-/

namespace Tempesta.Hpack
open RunLib

def hpackNodeGetIndex (tbl : TfwHPackETbl) : Option Nat → UInt64
  | none => 0
  | some node => ~~~(tbl.rindex node - tbl.idxAcc) + 1 + .ofNat (hpackStaticEntries + 1)

/-- What `tfw_hpack_encoder_index` returns and changes: the table, the guard, the
flag of the response, the result with `HPACK_IDX_FLAG_ADD`, and the index. -/
structure EncoderIndexRes where
  tbl : TfwHPackETbl
  guard : Int
  entered : Bool
  res : TfwHPackETblRes
  add : Bool
  outIndex : Option UInt16

/-- The test that ends in a call of `tfw_hpack_add_node`: `none` if it was not
called or failed. -/
def tryAddNode (cond : Bool) (behind : Nat → Nat → UInt8) (tbl : TfwHPackETbl) (hdr : TfwStr)
    (place : TfwHPackNodeIter) (op : TfwH2TransOp) : Option (Option TfwHPackETbl) :=
  if cond then
    (tfwHpackAddNode behind tbl hdr place op).map fun
      | .ok tbl => some tbl
      | .error _ => none
  else some none

def tfwHpackEncoderIndex (behind : Nat → Nat → UInt8) (tbl : TfwHPackETbl) (guard : Int)
    (entered : Bool) (hdr : TfwStr) (op : TfwH2TransOp) : Option EncoderIndexRes := do
  if entered = false ∧ guard < 0 then some ⟨tbl, guard, entered, .notFound, false, none⟩
  else
    let (res, node, place) ← tfwHpackRbtreeFind behind tbl.toTfwHPackTree hdr ⟨none, .left⟩
    let outIndex := some (hpackNodeGetIndex tbl node).toUInt16
    if entered = false then
      match ← tryAddNode (res ≠ .found ∧ guard = 0) behind tbl hdr place op with
      | some tbl => some ⟨tbl, -1, true, res, true, outIndex⟩
      | none =>
        if res ≠ .notFound then some ⟨tbl, guard + 1, true, res, false, outIndex⟩
        else some ⟨tbl, guard, entered, res, false, outIndex⟩
    else
      match ← tryAddNode (res ≠ .found ∧ guard ≤ 1) behind tbl hdr place op with
      | some tbl => some ⟨tbl, -1, entered, res, true, outIndex⟩
      | none => some ⟨tbl, guard, entered, res, false, outIndex⟩

/-- How far a call of `tfw_hpack_enc_release` has come: the branch is chosen by
the sign of the guard that was read. -/
inductive ReleaseAt where
  | outside
  | tested (negative : Bool)
  deriving DecidableEq

/-- The table of a connection with its guard and the responses: which have
`TFW_HTTP_B_H2_TRANS_ENTERED` set, and which are being released. -/
structure GuardState where
  tbl : TfwHPackETbl
  guard : Int
  entered : Finset Nat
  release : Nat → ReleaseAt

inductive GuardOp where
  | encoderIndex (resp : Nat) (hdr : TfwStr) (op : TfwH2TransOp) (behind : Nat → Nat → UInt8)
  | releaseTest (resp : Nat)
  | releaseUpdate (resp : Nat)

def GuardState.setRelease (s : GuardState) (resp : Nat) (place : ReleaseAt) : GuardState :=
  { s with release := fun r => if r = resp then place else s.release r }

/-- One step of the connection. The calls for one response follow each other, and
a step that is not the next one of its call is not taken. The flag belongs to the
response alone, so it is cleared together with the update of the guard. -/
def guardStep (s : GuardState) : GuardOp → Option GuardState
  | .encoderIndex resp hdr op behind => do
      if s.release resp = .outside then
        let r ← tfwHpackEncoderIndex behind s.tbl s.guard (resp ∈ s.entered) hdr op
        some { s with
          tbl := r.tbl
          guard := r.guard
          entered := if r.entered then insert resp s.entered else s.entered.erase resp }
      else none
  | .releaseTest resp =>
    if s.release resp = .outside then
      if resp ∈ s.entered then some (s.setRelease resp (.tested (s.guard < 0))) else some s
    else none
  | .releaseUpdate resp =>
    match s.release resp with
    | .tested negative =>
      some { s.setRelease resp .outside with
        guard := if negative then 0 else s.guard - 1
        entered := s.entered.erase resp }
    | .outside => none

def guardInit (tbl : TfwHPackETbl) : GuardState := ⟨tbl, 0, ∅, fun _ => .outside⟩

/-- The guard tells the number of the responses with the flag, or that there is a
single one, which may write. -/
def GuardCounts (guard : Int) (entered : Finset Nat) : Prop :=
  (guard = -1 ∧ entered.card = 1) ∨ (0 ≤ guard ∧ guard = entered.card)

/-- Who modifies the table is the only response with the flag, or the first. -/
def WritesAlone (s : GuardState) : GuardOp → Prop
  | .encoderIndex resp _ _ _ => ∀ r ∈ s.entered, r = resp
  | _ => False

variable {behind : Nat → Nat → UInt8} {op : TfwH2TransOp} {hdr : TfwStr}
  {cond entered negative : Bool} {tbl tbl' : TfwHPackETbl} {place : TfwHPackNodeIter} {guard : Int}
  {rs : Finset Nat} {resp r' : Nat}

lemma cond_of_tryAddNode (h : tryAddNode cond behind tbl hdr place op = some (some tbl')) :
    cond = true := by
  cases cond with
  | true => rfl
  | false => cases h

variable {r : EncoderIndexRes}

/-- What one call of `tfw_hpack_encoder_index` can do: nothing, enter as the
writer or as a reader, or, for a response that has entered, write. -/
theorem encoderIndex_cases (h : tfwHpackEncoderIndex behind tbl guard entered hdr op = some r) :
    (r.tbl = tbl ∧ r.guard = guard ∧ r.entered = entered) ∨
    (entered = false ∧ guard = 0 ∧ r.guard = -1 ∧ r.entered = true) ∨
    (entered = false ∧ 0 ≤ guard ∧ r.tbl = tbl ∧ r.guard = guard + 1 ∧ r.entered = true) ∨
    (entered = true ∧ guard ≤ 1 ∧ r.guard = -1 ∧ r.entered = true) := by
  unfold tfwHpackEncoderIndex at h
  by_cases hbusy : entered = false ∧ guard < 0
  · rw [if_pos hbusy] at h
    cases h
    exact .inl ⟨rfl, rfl, rfl⟩
  rw [if_neg hbusy] at h
  obtain ⟨⟨res, node, place⟩, -, h⟩ := Option.bind_eq_some_iff.mp h
  cases entered with
  | false =>
    obtain ⟨added, hadd, h⟩ := Option.bind_eq_some_iff.mp h
    cases added with
    | some tbl' =>
      have hcond := of_decide_eq_true (cond_of_tryAddNode hadd)
      cases h
      exact .inr (.inl ⟨rfl, hcond.2, rfl, rfl⟩)
    | none =>
      have hguard : 0 ≤ guard := Int.not_lt.mp fun hneg => hbusy ⟨rfl, hneg⟩
      by_cases hres : res ≠ .notFound
      · rw [if_pos hres] at h
        cases h
        exact .inr (.inr (.inl ⟨rfl, hguard, rfl, rfl, rfl⟩))
      · rw [if_neg hres] at h
        cases h
        exact .inl ⟨rfl, rfl, rfl⟩
  | true =>
    obtain ⟨added, hadd, h⟩ := Option.bind_eq_some_iff.mp h
    cases added with
    | some tbl' =>
      have hcond := of_decide_eq_true (cond_of_tryAddNode hadd)
      cases h
      exact .inr (.inr (.inr ⟨rfl, hcond.2, rfl, rfl⟩))
    | none =>
      cases h
      exact .inl ⟨rfl, rfl, rfl⟩

/-- What holds between the steps. A release that has read the guard still finds
the sign that it has seen. -/
structure GuardInv (s : GuardState) : Prop where
  counts : GuardCounts s.guard s.entered
  tested : ∀ r negative, s.release r = .tested negative →
    r ∈ s.entered ∧ (negative = true ↔ s.guard < 0)

section Steps
variable {s s' : GuardState}

lemma eq_of_card_one (hcard : rs.card = 1) {r : Nat} (hr : r ∈ rs) (hr' : r' ∈ rs) : r = r' :=
  Finset.card_le_one.mp (Nat.le_of_eq hcard) r hr r' hr'

lemma GuardInv.not_tested (h : GuardInv s) (hcard : s.entered.card = 1)
    (hresp : resp ∈ s.entered) {r : Nat} (hne : r ≠ resp) : s.release r ≠ .tested negative :=
      fun hr =>
  hne (eq_of_card_one hcard (h.tested r negative hr).1 hresp)

lemma GuardInv.releaseTest (h : GuardInv s) (hs : guardStep s (.releaseTest resp) = some s') :
    GuardInv s' := by
  simp only [guardStep] at hs
  split at hs
  · split at hs
    · next hmem =>
        cases hs
        refine ⟨h.counts, fun r negative hr => ?_⟩
        by_cases hrr : r = resp
        · simp only [GuardState.setRelease, hrr, if_true] at hr
          cases hr
          exact ⟨hrr ▸ hmem, decide_eq_true_iff⟩
        · exact h.tested r negative (by simpa [GuardState.setRelease, hrr] using hr)
    · cases hs
      exact h
  · cases hs

lemma GuardInv.released (h : GuardInv s) (hr : s.release resp = .tested negative) :
    GuardCounts (if negative then 0 else s.guard - 1) (s.entered.erase resp) := by
  obtain ⟨hmem, hsign⟩ := h.tested resp negative hr
  have hpos : 0 < s.entered.card := Finset.card_pos.mpr ⟨resp, hmem⟩
  rw [GuardCounts, Finset.card_erase_of_mem hmem]
  cases negative with
  | true =>
    have hneg := hsign.mp rfl
    obtain ⟨-, hcard⟩ | ⟨hge, -⟩ := h.counts
    · simp [hcard]
    · omega
  | false =>
    have hge : ¬ s.guard < 0 := fun hneg => Bool.noConfusion (hsign.mpr hneg)
    obtain ⟨hneg, -⟩ | ⟨-, hcard⟩ := h.counts
    · omega
    · refine .inr ?_
      simp only [Bool.false_eq_true, if_false]
      omega

lemma GuardInv.releaseUpdate (h : GuardInv s) (hs : guardStep s (.releaseUpdate resp) = some s') :
    GuardInv s' := by
  simp only [guardStep] at hs
  split at hs
  · next negative hr =>
      cases hs
      obtain ⟨hmem, hsign⟩ := h.tested resp negative hr
      refine ⟨h.released hr, fun r b hrel => ?_⟩
      have hne : r ≠ resp := fun heq => by simp [GuardState.setRelease, heq] at hrel
      have hold : s.release r = .tested b := by simpa [GuardState.setRelease, hne] using hrel
      obtain ⟨hr', hsign'⟩ := h.tested r b hold
      refine ⟨Finset.mem_erase.mpr ⟨hne, hr'⟩, ?_⟩
      obtain ⟨-, hcard⟩ | ⟨hge, hcard⟩ := h.counts
      · exact absurd hold (h.not_tested hcard hmem hne)
      · have htwo : 1 < s.entered.card := Finset.one_lt_card.mpr ⟨r, hr', resp, hmem, hne⟩
        rw [hsign']
        cases negative with
        | true => exact absurd (hsign.mp rfl) (by omega)
        | false =>
          simp only [Bool.false_eq_true, if_false]
          omega
  · cases hs

lemma GuardInv.enter (h : GuardInv s) (tbl : TfwHPackETbl)
    (hcounts : GuardCounts guard (insert resp s.entered))
    (hsign : ∀ r b, s.release r = .tested b → (b = true ↔ guard < 0)) :
    GuardInv { s with tbl := tbl, guard := guard, entered := insert resp s.entered } :=
  ⟨hcounts, fun r b hrel =>
    ⟨Finset.mem_insert_of_mem (h.tested r b hrel).1, hsign r b hrel⟩⟩

lemma GuardInv.encoderIndex (h : GuardInv s)
    (hs : guardStep s (.encoderIndex resp hdr op behind) = some s') :
    GuardInv s' ∧ (s'.tbl ≠ s.tbl → ∀ r ∈ s.entered, r = resp) := by
  simp only [guardStep] at hs
  split at hs
  · next hout =>
      obtain ⟨res, hres, hs⟩ := Option.bind_eq_some_iff.mp hs
      cases hs
      obtain ⟨htbl, hguard, hent⟩ | ⟨hent, hzero, hguard, hent'⟩ |
        ⟨hent, hge, htbl, hguard, hent'⟩ | ⟨hent, hle, hguard, hent'⟩ := encoderIndex_cases hres
      · have hsame : (if res.entered then insert resp s.entered else s.entered.erase resp) =
            s.entered := by
          by_cases hmem : resp ∈ s.entered
          · simp [hent, hmem]
          · simp [hent, hmem]
        simp only [hsame, htbl, hguard]
        exact ⟨h, fun hne => absurd rfl hne⟩
      · have hempty : s.entered = ∅ := by
          obtain ⟨hneg, -⟩ | ⟨-, hcard⟩ := h.counts
          · omega
          · exact Finset.card_eq_zero.mp (by omega)
        simp only [hent', hguard, if_true]
        refine ⟨h.enter res.tbl (.inl ⟨rfl, by simp [hempty]⟩) fun r b hrel => ?_,
          fun _ r hr => by simp [hempty] at hr⟩
        have hmem := (h.tested r b hrel).1
        simp [hempty] at hmem
      · have hnot : resp ∉ s.entered := of_decide_eq_false hent
        simp only [hent', hguard, htbl, if_true]
        refine ⟨h.enter s.tbl (.inr ?_) fun r b hrel => ?_, fun hne => absurd rfl hne⟩
        · rw [Finset.card_insert_of_notMem hnot]
          obtain ⟨hneg, -⟩ | ⟨-, hcard⟩ := h.counts
          · omega
          · omega
        · rw [(h.tested r b hrel).2]
          omega
      · have hmem : resp ∈ s.entered := of_decide_eq_true hent
        have hcard : s.entered.card = 1 := by
          have hpos : 0 < s.entered.card := Finset.card_pos.mpr ⟨resp, hmem⟩
          obtain ⟨-, hcard⟩ | ⟨-, hcard⟩ := h.counts
          · exact hcard
          · omega
        simp only [hent', hguard, if_true]
        refine ⟨h.enter res.tbl (.inl ⟨rfl, ?_⟩) fun r b hrel => ?_,
          fun _ r hr => eq_of_card_one hcard hr hmem⟩
        · rwa [Finset.insert_eq_of_mem hmem]
        · have hne : r ≠ resp := fun heq => by simp [heq, hout] at hrel
          exact absurd hrel (h.not_tested hcard hmem hne)
  · cases hs

lemma guardStep_inv (h : GuardInv s) (op : GuardOp) (hs : guardStep s op = some s') :
    GuardInv s' ∧ (s'.tbl ≠ s.tbl → WritesAlone s op) := by
  cases op with
  | encoderIndex resp hdr op behind => exact h.encoderIndex hs
  | releaseTest resp =>
    refine ⟨h.releaseTest hs, fun hne => absurd ?_ hne⟩
    simp only [guardStep] at hs
    split at hs
    · split at hs <;> cases hs <;> rfl
    · cases hs
  | releaseUpdate resp =>
    refine ⟨h.releaseUpdate hs, fun hne => absurd ?_ hne⟩
    simp only [guardStep] at hs
    split at hs <;> cases hs
    rfl

lemma guardInit_inv (tbl : TfwHPackETbl) : GuardInv (guardInit tbl) where
  counts := .inr ⟨Int.le_refl 0, rfl⟩
  tested := fun _ _ hr => ReleaseAt.noConfusion hr

end Steps

/-- In every state that an interleaving reaches, the guard counts the responses
with the flag, or is -1 and there is exactly one; and a step modifies the table
only while no other response has the flag. -/
theorem guard_counts_entered (tbl : TfwHPackETbl) (ops : List GuardOp) (s : GuardState)
    (hrun : ops.foldlM guardStep (guardInit tbl) = some s) :
    GuardCounts s.guard s.entered ∧
      ∀ op s', guardStep s op = some s' → s'.tbl ≠ s.tbl → WritesAlone s op := by
  have h : GuardInv s := invariant_of_run (fun _ op _ h hs => (guardStep_inv h op hs).1)
    (guardInit_inv tbl) hrun
  exact ⟨h.counts, fun op s' hs => (guardStep_inv h op hs).2⟩

/-- Looking up or adding the header `a: b`. -/
def indexShort (resp : Nat) : GuardOp :=
  .encoderIndex resp
    ⟨[⟨ofAscii "a", false⟩, ⟨ofAscii ":", false⟩, ⟨ofAscii " ", true⟩, ⟨ofAscii "b", false⟩]⟩
    .inplace fun _ _ => 0

theorem guard_counts_entered_two_readers :
    ∃ s, [indexShort 0, .releaseTest 0, .releaseUpdate 0, indexShort 1, indexShort 2].foldlM
        guardStep (guardInit (tfwHpackEncInit fun _ => .ofUInt64 0)) = some s ∧
      s.guard = 2 ∧ GuardCounts s.guard s.entered := by
  have hrun : ([indexShort 0, .releaseTest 0, .releaseUpdate 0, indexShort 1, indexShort 2].foldlM
      guardStep (guardInit (tfwHpackEncInit fun _ => .ofUInt64 0))).map GuardState.guard =
        some 2 := by
    decide +kernel
  obtain ⟨s, hs, hguard⟩ := Option.map_eq_some_iff.mp hrun
  exact ⟨s, hs, hguard, (guard_counts_entered _ _ s hs).1⟩

end Tempesta.Hpack
