import Tempesta.Cache.DecodeExpand

/-!
What the decoder has appended to a response stays, and what it has collected for an HTTP/2
client comes first.
-/

namespace Tempesta.Cache

open Hpack Http

/-- If the call goes on, then with `Q`. -/
def Each (Q : DcState → Prop) (x : Option DcState) : Prop :=
  ∀ d, x = some d → Q d

variable {Q P : DcState → Prop} {d : DcState} {x y : Option DcState} {s src : List UInt8}
  {conf : DcConf} {k : DcState → List UInt8 → Option DcState} {set : DcState → Nat → DcState}
  {state : HpackState} {emit : List UInt8 → DcState → DcState} {parts : List (List UInt8)}
  {behind : Nat → Nat → UInt8}

lemma each_some (h : Q d) : Each Q (some d) := by
  intro d' hd
  obtain rfl := Option.some.inj hd
  exact h

lemma each_none (Q : DcState → Prop) : Each Q none := nofun

lemma each_ite {c : Prop} [Decidable c] (hx : Each Q x) (hy : Each Q y) :
    Each Q (if c then x else y) := by
  split
  · exact hx
  · exact hy

/-- The response begins with `s`. -/
def Led (s : List UInt8) (d : DcState) : Prop := s <+: d.out

def naming : HpackState → Bool
  | .value | .valueLength | .valueText => false
  | _ => true

/-- The response will begin with `s`, which is the beginning of the data that was collected for
an HTTP/2 client. -/
def Pending (conf : DcConf) (s : List UInt8) (d : DcState) : Prop :=
  conf.h2Mode = true ∧ d.out = [] ∧ s <+: d.h2Data

def Leads (conf : DcConf) (s : List UInt8) (d : DcState) : Prop :=
  Led s d ∨ Pending conf s d ∧ naming d.state = true

lemma Led.expand (h : Led s d) (data : List UInt8) : Led s (d.expand data) :=
  List.IsPrefix.trans h (List.prefix_append d.out data)

section parts
variable {behind : Nat → UInt8}

lemma Led.modifyValue (h : Led s d) (desc : HdrModsDesc) : Led s (d.modifyValue conf desc) := by
  rw [DcState.modifyValue]
  split
  · exact h.expand _
  · exact h.expand _

lemma Led.valueDone (h : Led s d) : Led s (d.valueDone conf) := by
  rw [DcState.valueDone]
  cases d.desc with
  | some desc =>
    dsimp only
    split
    · exact h.modifyValue _
    · exact (h.modifyValue _).expand _
  | none =>
    dsimp only
    split
    · exact h
    · exact h.expand _

lemma Led.valueText (h : Led s d) : Each (Led s) (d.valueText conf src) := by
  have hcopy : Led s (if d.desc.any HdrModsDesc.append && conf.h2Mode then
      { d with hdrData := d.hdrData ++ [src.take (min src.length d.length)] }
    else if d.desc.isNone || d.desc.any HdrModsDesc.append then
      d.expand (src.take (min src.length d.length))
    else d) := by
    split
    · exact h
    split
    · exact h.expand _
    · exact h
  rw [DcState.valueText]
  exact each_ite (each_some hcopy) (each_some (Led.valueDone hcopy))

lemma Led.valueRead (h : Led s d) : Each (Led s) (d.valueRead conf src) := by
  rw [DcState.valueRead]
  exact each_ite (each_some h) h.valueText

lemma Led.expandH2Data (h : Led s d) (prev src : List UInt8) :
    Led s (d.expandH2Data conf behind prev src) := by
  rw [DcState.expandH2Data]
  split
  · exact h.expand _
  · exact h

/-- The end of an integer keeps what `emit` and the code behind it keep. -/
theorem each_flexible {x : FlexRes} (hemit : ∀ src x, P (emit src (set d x)))
    (hmore : ∀ e m, P e → Q { e with state := state, shift := m })
    (hk : ∀ e src, P e → Each Q (k e src)) : Each Q (d.flexible emit set state k x) := by
  cases x with
  | done x src => exact hk _ src (hemit src x)
  | more x m => exact each_some (hmore _ m (hemit [] x))
  | drop => exact each_none Q
  | undefined => exact each_none Q

lemma Led.setLength (h : Led s d) (x : Nat) : Led s (d.setLength x) := h

lemma Led.value (h : Led s d) : Each (Led s) (d.value conf behind src) := by
  cases src with
  | nil => exact each_none _
  | cons c src =>
    rw [DcState.value]
    apply each_ite
    · refine each_flexible (P := Led s) (fun _ x => (h.setLength x).expandH2Data _ _)
        (fun _ _ he => he) ?_
      intro e src he
      exact he.valueRead
    · exact ((h.setLength _).expandH2Data _ _).valueRead

/-- Before the name is complete: the response has begun, or what it begins with is there. -/
def Ahead (conf : DcConf) (s : List UInt8) (d : DcState) : Prop := Led s d ∨ Pending conf s d

lemma Ahead.leads (h : Ahead conf s d) (hstate : naming d.state = true) : Leads conf s d := by
  obtain h | h := h
  · exact .inl h
  · exact .inr ⟨h, hstate⟩

lemma Ahead.fixupH2Data (h : Ahead conf s d) (prev src : List UInt8) :
    Ahead conf s (d.fixupH2Data conf behind prev src) := by
  rw [DcState.fixupH2Data]
  split
  · obtain h | ⟨h2, hout, hpre⟩ := h
    · exact .inl h
    · exact .inr ⟨h2, hout, hpre.trans (List.prefix_append _ _)⟩
  · exact h

lemma Ahead.nameOut (h : Ahead conf s d) : Led s (d.nameOut conf) := by
  rw [DcState.nameOut]
  cases hmode : conf.h2Mode with
  | true =>
    have hled : Led s (d.expand d.h2Data) := by
      obtain h | ⟨-, hout, hpre⟩ := h
      · exact h.expand _
      · rw [Led, DcState.expand, hout, List.nil_append]
        exact hpre
    exact hled.expand _
  | false =>
    obtain h | ⟨h2, -, -⟩ := h
    · exact (h.expand _).expand _
    · rw [hmode] at h2
      cases h2

lemma Ahead.checkName (h : Ahead conf s d) (hstate : naming d.state = true) :
    Each (Leads conf s) (d.checkName conf behind src) := by
  rw [DcState.checkName]
  apply each_ite
  · exact each_some (Ahead.leads h hstate)
  · have hled := Ahead.nameOut (d := { d with
      desc := conf.hMods.find? fun m => stricmpEq d.hdrData [m.name] }) h
    apply each_ite
    · exact each_some (.inl hled)
    · intro d' hd
      exact .inl (hled.value d' hd)

lemma Ahead.nameText (h : Ahead conf s d) :
    Each (Leads conf s) (d.nameText conf behind src) := by
  rw [DcState.nameText]
  apply each_ite
  · exact each_some (Ahead.leads h rfl)
  · exact Ahead.checkName h rfl

lemma Ahead.nameRead (h : Ahead conf s d) :
    Each (Leads conf s) (d.nameRead conf behind src) := by
  rw [DcState.nameRead]
  apply each_ite
  · exact each_some (Ahead.leads h rfl)
  · exact h.nameText

lemma Ahead.setLength (h : Ahead conf s d) (x : Nat) : Ahead conf s (d.setLength x) := h

lemma Ahead.setIndex (h : Ahead conf s d) (x : Nat) : Ahead conf s (d.setIndex x) := h

lemma Ahead.name (h : Ahead conf s d) :
    Each (Leads conf s) (d.name conf behind src) := by
  cases src with
  | nil => exact each_none _
  | cons c src =>
    rw [DcState.name]
    apply each_ite
    · refine each_flexible (P := Ahead conf s) (fun _ x => (h.setLength x).fixupH2Data _ _)
        (fun _ _ he => Ahead.leads he rfl) ?_
      intro e src he
      exact he.nameRead
    · apply each_ite
      · exact each_none _
      · exact ((h.setLength _).fixupH2Data _ _).nameRead

lemma Ahead.indexedName (h : Ahead conf s d) :
    Each (Leads conf s) (d.indexedName conf behind src) := by
  rw [DcState.indexedName]
  apply each_ite
  · exact each_none _
  · cases staticName d.index with
    | none => exact each_none _
    | some name => exact Ahead.checkName h rfl

lemma Ahead.indexRead (h : Ahead conf s d) :
    Each (Leads conf s) (d.indexRead conf behind src) := by
  rw [DcState.indexRead]
  apply each_ite
  · by_cases hidx : d.index ≠ 0
    · rw [if_pos hidx]
      exact each_some (Ahead.leads h rfl)
    · rw [if_neg hidx]
      exact each_some (Ahead.leads h rfl)
  · exact each_ite h.indexedName h.name

lemma Ahead.indexContinued (h : Ahead conf s d) :
    Each (Leads conf s) (d.indexContinued conf behind src) := by
  rw [DcState.indexContinued]
  exact each_ite (each_some (Ahead.leads h rfl)) h.indexedName

lemma Ahead.ready (h : Ahead conf s d) :
    Each (Leads conf s) (d.ready conf behind src) := by
  cases src with
  | nil => exact each_none _
  | cons c src =>
    rw [DcState.ready]
    apply each_ite
    · exact each_none _
    · apply each_ite
      · refine each_flexible (P := Ahead conf s) (fun _ x => (h.setIndex x).fixupH2Data _ _)
          (fun _ _ he => Ahead.leads he rfl) ?_
        intro e src he
        exact he.indexRead
      · exact ((h.setIndex _).fixupH2Data _ _).indexRead

lemma Leads.ahead (h : Leads conf s d) : Ahead conf s d := by
  obtain h | ⟨h, -⟩ := h
  · exact .inl h
  · exact .inr h

lemma Leads.led (h : Leads conf s d) (hstate : naming d.state = false) : Led s d := by
  obtain h | ⟨-, hnaming⟩ := h
  · exact h
  · rw [hstate] at hnaming
    cases hnaming

lemma Led.each_leads (h : Each (Led s) x) : Each (Leads conf s) x :=
  fun d hd => .inl (h d hd)

lemma Leads.readByte (h : Leads conf s d) :
    Each (Leads conf s) (d.readByte conf behind src) := by
  rw [DcState.readByte]
  split
  · exact h.ahead.ready
  · exact h.ahead.name
  next hst => exact Led.each_leads (h.led (by rw [hst]; rfl)).value
  · refine each_flexible (P := Ahead conf s) (fun _ x => (h.ahead.setIndex x).fixupH2Data _ _)
      (fun _ _ he => Ahead.leads he rfl) ?_
    intro e src he
    exact he.indexContinued
  · refine each_flexible (P := Ahead conf s) (fun _ x => (h.ahead.setLength x).fixupH2Data _ _)
      (fun _ _ he => Ahead.leads he rfl) ?_
    intro e src he
    exact he.nameRead
  next hst =>
    have hled := h.led (by rw [hst]; rfl)
    apply Led.each_leads
    refine each_flexible (P := Led s) (fun _ x => (hled.setLength x).expandH2Data _ _)
      (fun _ _ he => he) ?_
    intro e src he
    exact he.valueRead
  · exact each_none _

lemma Leads.cacheDecodeExpand (h : Leads conf s d) :
    Each (Leads conf s) (cacheDecodeExpand conf behind d src) := by
  rw [Cache.cacheDecodeExpand]
  split
  · exact h.ahead.indexedName
  · exact h.ahead.nameText
  next hst => exact Led.each_leads (h.led (by rw [hst]; rfl)).valueText
  · exact each_ite h.readByte h.readByte

end parts

lemma Leads.decodeWriteFrom (h : Leads conf s d) :
    Each (Leads conf s) (decodeWriteFrom conf behind d parts) := by
  induction parts generalizing behind d with
  | nil => exact each_some h
  | cons part parts ih =>
    rw [Cache.decodeWriteFrom]
    apply each_ite
    · exact ih h
    · intro d' hd
      obtain ⟨e, he, hrest⟩ := Option.bind_eq_some_iff.mp hd
      exact ih (h.cacheDecodeExpand e he) d' hrest

end Tempesta.Cache
