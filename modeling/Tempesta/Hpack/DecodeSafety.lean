import Tempesta.Hpack.Layout

/-!
Where `tfw_hpack_decode` reads behind its data, and where it runs into the `BUG_ON` of
`BUFFER_GET`. Both are said of the bytes of a call and the context before it: each case of
the switch keeps to the layout of the header block.
-/

namespace Tempesta.Hpack

open List Relation DecodeState IterLib

/-- The call drops the request, or leaves the C semantics other than by reading on. -/
def Refused (r : Except HpackStop HpackRet) : Prop :=
  r = .error .undefined ∨ ∃ x, r = .ok x ∧ x.ret = .drop

variable {n x : Nat} {huffman : Bool} {s₀ s s' : DecodeState} {ctx : HpackCtx}
  {set : HpackCtx → Nat → HpackCtx} {env : HpackEnv} {req : HpackReq}
  {parse : HpackReq → List UInt8 → Bool → TRet × HpackReq} {state : HpackState}
  {src : List UInt8} {htblSz : UInt32} {c : UInt8} {b : UInt8 × Nat}
  {t t' : Place × List UInt8} {p : Place}

namespace DecodeState

/-- The cases that read a byte without a look at the end of the data -/
def reads : HpackState → Bool
  | .ready | .name | .value | .index | .window | .nameLength | .valueLength => true
  | .nameText | .indexedNameText | .valueText | .allIndexed => false

/-- What holds of the context between the cases: the flag of the value is not set before its
length is read, and a length of several bytes is not zero. -/
def CtxInv (ctx : HpackCtx) : Prop :=
  match ctx.state with
  | .valueText => True
  | .valueLength => 0 < ctx.huff.length
  | .nameLength => 0 < ctx.huff.length ∧ ctx.flags.huffmanValue = false
  | _ => ctx.flags.huffmanValue = false

/-- Texts are not begun without data. -/
structure Inv (s : DecodeState) : Prop where
  ctx : CtxInv s.ctx
  data : s.src = [] → s.ctx.state ≠ .nameText ∧ s.ctx.state ≠ .valueText

def place (s : DecodeState) : Place × List UInt8 := (s.ctx.place, s.src)

lemma place_eq (s : DecodeState) : s.place = (s.ctx.place, s.src) := rfl

/-- The literal leads to the case of the name without data. -/
def Literal (s₀ s : DecodeState) : Prop :=
  s₀.ctx.state = .ready ∧ ∃ b ∈ Place.longIndices, ∃ rest x, s₀.src = b.1 :: rest ∧
    getFlexible b.2 0 rest = .done x [] ∧ s.ctx.state = .indexedNameText

/-- The case of the name leads to that of the value, without data too. -/
def Indexed (s₀ s : DecodeState) : Prop :=
  s₀.ctx.state = .indexedNameText ∧ s.ctx.state = .value ∧ s₀.src = []

/-- The case `s₀`, behind which `t` stands in the data, leads there, or ends the call at the end
of the data. -/
def Leads (s₀ : DecodeState) (t : Option (Place × List UInt8)) : DecodeNext → Prop
  | .inl s => CtxInv s.ctx ∧ t = some s.place ∧
      (s.src = [] → s.ctx.state = .allIndexed ∨ Literal s₀ s ∨ Indexed s₀ s)
  | .inr (.ok r) => r.ret = .drop ∨ CtxInv r.ctx ∧ ∀ t₁ ∈ t, t₁.2 = []
  | .inr (.error .bug) => s₀.ctx.state = .value ∧ s₀.src.head? = some 0x80
  | .inr (.error .overrun) => reads s₀.ctx.state = true ∧ s₀.src = []
  | .inr (.error .undefined) => True

/-- The parser of a text answers at its last piece. -/
def Answers (parse : HpackReq → List UInt8 → Bool → TRet × HpackReq) : Prop :=
  ∀ req data fin, (parse req data fin).1 = .drop ∨
    (parse req data fin).1 = if fin then .ok else .postpone

section Cases

lemma over_none : ∀ t₁ ∈ (none : Option (Place × List UInt8)), t₁.2 = [] := by
  intro t₁ h
  cases h

lemma over_some (h : src = []) : ∀ t₁ ∈ some (p, src), t₁.2 = [] := by
  rintro t₁ ⟨⟩
  exact h

lemma Leads.nextState (h : CtxInv { s.ctx with state := state }) :
    Leads s₀ (some (HpackCtx.place { s.ctx with state := state }, s.src)) (s.nextState state) := by
  rw [DecodeState.nextState]
  split_ifs with hsrc
  · exact .inr ⟨h, over_some hsrc⟩
  · exact ⟨h, rfl, fun hnil => absurd hnil hsrc⟩

lemma Leads.headerDone : Leads s₀ (some (.first, s.src)) s.headerDone := by
  rw [DecodeState.headerDone]
  split_ifs with hsrc
  · exact .inr ⟨rfl, over_some hsrc⟩
  · exact ⟨rfl, rfl, fun hnil => absurd hnil hsrc⟩

lemma Leads.setWindow : Leads s₀ (some (.first, s.src)) (ready.setWindow s) := by
  rw [ready.setWindow]
  split
  · exact trivial
  · exact .inl rfl
  · exact .headerDone

variable {k : DecodeState → DecodeNext} {g : Nat → Option Place}

lemma Leads.flexible {x : FlexRes} (hx : x.AtLeast n)
    (hmore : ∀ y m, n ≤ y → CtxInv { set s.ctx y with state := state, shift := m })
    (hdone : ∀ y src, n ≤ y → x = .done y src →
      Leads s₀ ((g y).map (·, src)) (k { s with ctx := set s.ctx y, src := src })) :
    Leads s₀ (Place.behind g x) (s.flexible set state x k) := by
  cases x with
  | done y src => exact hdone y src hx rfl
  | more y m => exact .inr ⟨hmore y m hx, over_none⟩
  | drop => exact .inl rfl
  | undefined => exact trivial

lemma Leads.processString (hparse : Answers parse) (hsrc : s.src ≠ [])
    (h : ∀ huff, CtxInv { s.ctx with huff := huff })
    (hk : ∀ s', s'.ctx.flags = s.ctx.flags → s'.src = s.src.drop s.ctx.huff.length →
      Leads s₀ (some (p, s'.src)) (k s')) :
    Leads s₀ (if s.ctx.huff.length ≤ s.src.length then some (p, s.src.drop s.ctx.huff.length)
      else none) (s.processString huffman parse k) := by
  generalize hq : (if s.ctx.huff.length ≤ s.src.length then
    some (p, s.src.drop s.ctx.huff.length) else none) = q
  have hover : ¬ s.ctx.huff.length ≤ s.src.length → ∀ t₁ ∈ q, t₁.2 = [] := by
    intro hlt
    rw [← hq, if_neg hlt]
    exact over_none
  have hwhole : s.ctx.huff.length ≤ s.src.length → ∀ s', s'.ctx.flags = s.ctx.flags →
      s'.src = s.src.drop (min s.src.length s.ctx.huff.length) → Leads s₀ q (k s') := by
    intro hle s' hflags hsrc'
    rw [Nat.min_eq_right hle] at hsrc'
    rw [← hq, if_pos hle, ← hsrc']
    exact hk s' hflags hsrc'
  rw [DecodeState.processString]
  dsimp only
  split_ifs with hhuff hret
  · split
    · exact trivial
    · rename_i res hres
      have hok := tfwHuffmanDecode_ok_iff hres hsrc
      split_ifs with hret hans
      · by_cases hd : res.ret = .drop
        · exact .inl hd
        · exact .inr ⟨h _, hover fun hle => hret ((hok hd).mpr hle)⟩
      · exact .inl rfl
      · rw [ne_eq, not_not] at hret
        exact hwhole ((hok (by rw [hret]; decide)).mp hret) _ rfl rfl
  all_goals
    rcases hparse s.req (s.src.take (min s.src.length s.ctx.huff.length))
      (s.ctx.huff.length - min s.src.length s.ctx.huff.length == 0) with hd | hfin
  · exact .inl hd
  · refine .inr ⟨h _, hover fun hle => hret ?_⟩
    exact hfin.trans (if_pos (beq_iff_eq.mpr (by omega)))
  · exact absurd (hd.symm.trans (not_not.mp hret)) (by decide)
  · refine hwhole ?_ _ rfl rfl
    rw [hfin] at hret
    split_ifs at hret with hzero
    · rw [beq_iff_eq] at hzero
      omega
    · exact absurd hret (by decide)

lemma parseHdrName_answers (env : HpackEnv) : Answers (parseHdrName env) := by
  intro req data fin
  have hok := namePiece_ok env.parser fin req.name data
  rw [parseHdrName]
  dsimp only
  split
  · rename_i hp
    rw [hp] at hok
    exact .inr (by rw [hok.1]; rfl)
  · rename_i hp
    rw [hp] at hok
    exact .inr (by rw [show fin = false from hok]; rfl)
  · exact .inl rfl

lemma parseHdrValue_answers (env : HpackEnv) : Answers (parseHdrValue env) := by
  intro req data fin
  cases fin with
  | false => exact .inr rfl
  | true =>
    rw [parseHdrValue, if_neg (by decide)]
    split
    · exact .inl rfl
    · split
      · exact .inl rfl
      · exact .inr rfl

lemma Leads.readByte {k : DecodeState → UInt8 → DecodeNext} (hreads : reads s₀.ctx.state = true)
    (h : ∀ c src, s₀.src = c :: src →
      Leads s₀ (p.next (c :: src)) (k { s₀ with src := src } c)) :
    Leads s₀ (p.next s₀.src) (s₀.readByte k) := by
  rw [DecodeState.readByte]
  cases hsrc : s₀.src with
  | nil => exact ⟨hreads, hsrc⟩
  | cons c src => exact h c src hsrc

/-- The states around the literal that was read -/
theorem Leads.literalIndex (k : Nat) (hst : s₀.ctx.state = .ready)
    (hflag : s.ctx.flags.huffmanValue = false) (hsrc : s₀.src = c :: s.src)
    (hmask : c.toNat % 2 ^ k = 2 ^ k - 1 → (c, 2 ^ k - 1) ∈ Place.longIndices)
    (hpos : 0 < 2 ^ k - 1) :
    Leads s₀ (Place.behind Place.literal (readInt (2 ^ k - 1) c s.src))
      (s.literalIndex (2 ^ k) c) := by
  rw [readInt_eq, DecodeState.literalIndex]
  split_ifs with hfull hzero
  · rw [hfull]
    refine .flexible (getFlexible_atLeast (Nat.le_refl _) _ _) (fun _ _ _ => hflag)
      fun y src hy hdone => ⟨hflag, ?_, ?_⟩
    · rw [Place.literal, if_neg (by omega)]
      rfl
    · rintro rfl
      exact .inr (.inl ⟨hst, (c, 2 ^ k - 1), hmask hfull, s.src, y, hsrc, hdone, rfl⟩)
  · rw [Place.behind, Place.literal, if_neg hzero]
    exact .nextState hflag
  · rw [Place.behind, Place.literal, if_pos (not_not.mp hzero)]
    exact .nextState hflag

lemma Leads.ready (hst : s₀.ctx.state = .ready) (hflag : s₀.ctx.flags.huffmanValue = false)
    (hsrc : s₀.src = c :: src) :
    Leads s₀ (Place.next .first (c :: src)) (DecodeState.ready { s₀ with src := src } c) := by
  rw [DecodeState.ready, Place.next, readInt_length, readInt_window]
  dsimp only
  split_ifs with h128 hfull hzero h64 h32 hfull
  · rw [hfull]
    refine .flexible (getFlexible_atLeast (Nat.le_refl _) _ _) (fun _ _ _ => hflag)
      fun y src hy _ => ⟨hflag, ?_, fun _ => .inl rfl⟩
    rw [if_neg (by omega)]
    rfl
  · exact .inl rfl
  · refine ⟨hflag, ?_, fun _ => .inl rfl⟩
    rw [Place.behind, if_neg hzero]
    rfl
  · refine .literalIndex 6 hst hflag hsrc (fun _ => ?_) (by decide)
    obtain rfl : c = 0x7F := UInt8.toNat.inj (show c.toNat = 127 by omega)
    decide
  · rw [hfull]
    exact .flexible (getFlexible_atLeast (Nat.zero_le _) _ _) (fun _ _ _ => hflag)
      fun y src _ _ => .setWindow
  · exact .setWindow
  · refine .literalIndex 4 hst hflag hsrc (fun _ => ?_) (by decide)
    obtain h15 | h31 : c.toNat = 15 ∨ c.toNat = 31 := by omega
    · obtain rfl : c = 0x0F := UInt8.toNat.inj h15
      decide
    · obtain rfl : c = 0x1F := UInt8.toNat.inj h31
      decide

lemma Leads.nameOpen (hflag : s.ctx.flags.huffmanValue = false) (hlen : 0 < s.ctx.huff.length) :
    Leads s₀ (some (.nameText s.ctx.huff.length, s.src)) s.nameOpen := by
  rw [DecodeState.nameOpen, if_neg (fun h => absurd h.2 (by omega))]
  exact .nextState hflag

lemma Leads.name (hflag : s₀.ctx.flags.huffmanValue = false) :
    Leads s₀ (Place.next .nameLength (c :: src)) (DecodeState.name { s₀ with src := src } c) := by
  rw [DecodeState.name, Place.next, readInt_length]
  dsimp only
  split_ifs with hfull hzero
  · rw [hfull]
    refine .flexible (n := 127) (getFlexible_atLeast (Nat.le_refl _) _ _)
      (fun y m hy => ⟨show 0 < y by omega, hflag⟩) fun y src hy _ => ?_
    rw [if_neg (by omega)]
    exact .nameOpen hflag (show 0 < y by omega)
  · exact .inl rfl
  · rw [Place.behind, if_neg hzero]
    exact .nameOpen hflag (Nat.pos_of_ne_zero hzero)

lemma Leads.valueOpen
    (h : s.ctx.flags.huffmanValue = true → s.ctx.huff.length = 0 → s₀.ctx.state = .value ∧
      s₀.src.head? = some 0x80) :
    Leads s₀ (some (.valueText s.ctx.huff.length, s.src)) s.valueOpen := by
  rw [DecodeState.valueOpen]
  by_cases hbug : s.ctx.flags.huffmanValue = true ∧ s.ctx.huff.length = 0
  · rw [if_pos hbug]
    exact h hbug.1 hbug.2
  · rw [if_neg hbug]
    exact .nextState trivial

lemma Leads.value (hst : s₀.ctx.state = .value) (hflag : s₀.ctx.flags.huffmanValue = false)
    (hsrc : s₀.src = c :: src) :
    Leads s₀ (Place.next .valueLength (c :: src)) (DecodeState.value { s₀ with src := src } c) := by
  rw [DecodeState.value, Place.next, readInt_length]
  dsimp only
  split_ifs with hfull
  · rw [hfull]
    refine .flexible (n := 127) (getFlexible_atLeast (Nat.le_refl _) _ _)
      (fun y m hy => show 0 < y by omega) fun y src hy _ => .valueOpen fun _ hzero => ?_
    exact absurd (show y = 0 from hzero) (by omega)
  · refine .valueOpen fun hbit hzero => ⟨hst, ?_⟩
    simp only [hflag, Bool.false_or, decide_eq_true_eq, setLength] at hbit hzero
    rw [hsrc, head?_cons, Option.some_inj]
    apply UInt8.toNat.inj
    have := c.toNat_lt
    show c.toNat = 128
    omega

lemma Leads.valueDone (env : HpackEnv) : Leads s₀ (some (.first, s.src)) (s.valueDone env) := by
  rw [DecodeState.valueDone]
  dsimp only
  split
  · exact trivial
  · exact .inl rfl
  · split
    · exact .inl rfl
    · exact .headerDone

end Cases

/-- Each case of the switch leads to what stands next in the data. -/
theorem step_leads (env : HpackEnv) (h : Inv s) :
    Leads s (s.ctx.place.next s.src) (s.step env) := by
  obtain ⟨h, hdata⟩ := h
  rw [step, HpackCtx.place]
  rw [CtxInv] at h
  cases hst : s.ctx.state with
  | ready =>
    rw [hst] at h
    exact .readByte (by rw [hst]; rfl) fun c src hsrc => .ready hst h hsrc
  | name =>
    rw [hst] at h
    exact .readByte (by rw [hst]; rfl) fun c src hsrc => .name h
  | nameText =>
    rw [hst] at h
    refine .processString (parseHdrName_answers env) (fun hnil => (hdata hnil).1 hst)
      (fun huff => by rw [CtxInv, hst]; exact h) fun s' hflag hsrc => ?_
    exact .nextState (show s'.ctx.flags.huffmanValue = false by rw [hflag, h])
  | indexedNameText =>
    rw [hst] at h
    dsimp only
    rw [indexedNameText]
    split
    · exact .inl rfl
    · exact trivial
    · split
      · exact .inl rfl
      · exact ⟨h, rfl, fun hnil => .inr (.inr ⟨hst, rfl, hnil⟩)⟩
  | value =>
    rw [hst] at h
    exact .readByte (by rw [hst]; rfl) fun c src hsrc => .value hst h hsrc
  | valueText =>
    dsimp only
    rw [valueText, Place.next]
    by_cases hzero : s.ctx.huff.length = 0
    · rw [if_pos hzero]
      exact .inl rfl
    · rw [if_neg hzero, if_congr (and_iff_right (Nat.pos_of_ne_zero hzero)) rfl rfl]
      exact .processString (parseHdrValue_answers env) (fun hnil => (hdata hnil).2 hst)
        (fun huff => by rw [CtxInv, hst]; trivial) fun s' _ _ => .valueDone env
  | allIndexed =>
    dsimp only
    rw [allIndexed]
    split
    · exact .inl rfl
    · exact trivial
    · split
      · exact .inl rfl
      · exact .headerDone
  | index =>
    rw [hst] at h
    refine .flexible (getContinue_atLeast (Nat.zero_le _) _ _) (fun _ _ _ => h) fun y src _ _ => ?_
    cases hno : s.ctx.flags.noValue with
    | true =>
      rw [if_pos (show (setIndex s.ctx y).flags.noValue = true from hno)]
      exact ⟨h, rfl, fun _ => .inl rfl⟩
    | false =>
      rw [if_neg (show ¬ (setIndex s.ctx y).flags.noValue = true from Bool.eq_false_iff.mp hno)]
      exact .nextState h
  | window =>
    rw [hst] at h
    exact .flexible (getContinue_atLeast (Nat.zero_le _) _ _) (fun _ _ _ => h)
      fun y src _ _ => .setWindow
  | nameLength =>
    rw [hst] at h
    exact .flexible (n := 1) (getContinue_atLeast h.1 _ _) (fun y m hy => ⟨hy, h.2⟩)
      fun y src hy _ => .nameOpen h.2 hy
  | valueLength =>
    rw [hst] at h
    refine .flexible (n := 1) (getContinue_atLeast h _ _) (fun y m hy => hy)
      fun y src hy _ => .valueOpen fun _ hzero => ?_
    exact absurd (show y = 0 from hzero) (by omega)

/-- The cases that a call of `tfw_hpack_decode` comes to -/
def Visited (env : HpackEnv) : DecodeState → DecodeState → Prop :=
  ReflTransGen fun s s' => s.step env = .inl s'

/-- The contexts that calls lead to, each with the request and the data of its own -/
inductive Fed (env : HpackEnv) (htblSz : UInt32) : HpackCtx → Prop
  | init : Fed env htblSz (hpackCtxInit htblSz)
  | call {ctx req src r} : Fed env htblSz ctx → src ≠ [] →
      tfwHpackDecode env ctx req src = .ok r → r.ret ≠ .drop → Fed env htblSz r.ctx

lemma Inv.next (h : Inv s) (hs : s.step env = .inl s') : Inv s' := by
  have hleads := step_leads env h
  rw [hs] at hleads
  obtain ⟨hctx, -, hnil⟩ := hleads
  refine ⟨hctx, fun hsrc => ?_⟩
  obtain hst | ⟨-, b, -, rest, x, -, -, hst⟩ | ⟨-, hst, -⟩ := hnil hsrc
  all_goals
    rw [hst]
    decide

lemma Fed.inv (h : Fed env htblSz ctx) : CtxInv ctx := by
  induction h with
  | init => rfl
  | @call ctx req src r _ hsrc hr hret ih =>
    refine ((tfwHpackDecode_ends env ctx req src).invariant (I := Inv)
      (Q := fun x => ∀ r, x = .ok r → r.ret = .drop ∨ CtxInv r.ctx) (fun _ _ => Inv.next) ?_
      ⟨ih, fun hnil => absurd hnil hsrc⟩ r hr).resolve_left hret
    rintro s x hi hs r rfl
    have hleads := step_leads env hi
    rw [hs] at hleads
    exact hleads.imp_right And.left

/-- The variables at the start of a call -/
def start (ctx : HpackCtx) (req : HpackReq) (src : List UInt8) : DecodeState :=
  ⟨ctx, req, .postpone, src⟩

lemma Fed.start (h : Fed env htblSz ctx) (req : HpackReq) (hsrc : src ≠ []) :
    Inv (start ctx req src) :=
  ⟨h.inv, fun hnil => absurd hnil hsrc⟩

lemma Visited.inv (h : Visited env s s') (hs : Inv s) : Inv s' := by
  induction h with
  | refl => exact hs
  | tail _ hstep ih => exact ih.next hstep

/-- What the decoder comes to is laid out in the data. -/
lemma Visited.reads (h : Visited env s s') (hs : Inv s) : Place.Reads s.place s'.place := by
  induction h with
  | refl => exact .refl
  | @tail s₁ s₂ h hstep ih =>
    have hleads := step_leads env (Visited.inv h hs)
    rw [hstep] at hleads
    exact ih.tail hleads.2.1

/-- What is laid out in the data the decoder comes to, unless the call is refused. -/
theorem Visited.follow (env : HpackEnv) (h : Place.Reads t t') (hs : Inv s) (hplace : s.place = t)
    (hsrc : t'.2 ≠ []) (hval : ∀ n, t'.1 ≠ .valueText n) :
    (∃ s', Visited env s s' ∧ s'.place = t') ∨ ∃ r, Ends (step env) s r ∧ Refused r := by
  induction h using ReflTransGen.head_induction_on generalizing s with
  | refl => exact .inl ⟨s, .refl, hplace⟩
  | @head t t₁ hnext hrest ih =>
    subst hplace
    have hleads := step_leads env hs
    rw [show s.ctx.place.next s.src = some t₁ from hnext] at hleads
    cases hstep : s.step env with
    | inl s₂ =>
      rw [hstep] at hleads
      rcases ih (hs.next hstep) (Option.some.inj hleads.2.1).symm with
        ⟨s', hvis', hplace⟩ | ⟨r, hr, href⟩
      · exact .inl ⟨s', .head hstep hvis', hplace⟩
      · exact .inr ⟨r, .next hstep hr, href⟩
    | inr r =>
      rw [hstep] at hleads
      rcases r with (_ | _ | _) | r
      · obtain ⟨hst, hhead⟩ := hleads
        obtain ⟨rest, hsrc₁⟩ := head?_eq_some_iff.mp hhead
        have hvalue : s.ctx.place.next s.src = some (.valueText 0, rest) := by
          rw [HpackCtx.place, hst, hsrc₁]
          rfl
        cases hvalue.symm.trans hnext
        exact absurd (congrArg Prod.fst (Place.Reads.emptyValue hrest)) (hval 0)
      · exact absurd (Place.Reads.nil (t := s.place) (.head hnext hrest) hleads.2) hsrc
      · exact .inr ⟨_, .stop hstep, .inl rfl⟩
      · rcases hleads with hdrop | ⟨-, hover⟩
        · exact .inr ⟨_, .stop hstep, .inr ⟨r, rfl, hdrop⟩⟩
        · exact absurd (Place.Reads.nil hrest (hover t₁ rfl)) hsrc

lemma state_of_valueLength (hp : s.ctx.place = .valueLength) : s.ctx.state = .value := by
  rw [HpackCtx.place] at hp
  cases hst : s.ctx.state <;> rw [hst] at hp <;> first | rfl | cases hp

lemma state_of_first (hp : s.ctx.place = .first) : s.ctx.state = .ready := by
  rw [HpackCtx.place] at hp
  cases hst : s.ctx.state <;> rw [hst] at hp <;> first | rfl | cases hp

lemma step_emptyHuffman (env : HpackEnv) (hst : s.ctx.state = .value) (hsrc : s.src = 0x80 :: src) :
    s.step env = .inr (.error .bug) := by
  rw [step, hst]
  dsimp only
  rw [readByte, hsrc]
  dsimp only
  rw [value]
  simp [setLength, valueOpen]

lemma ready_long (hb : b ∈ Place.longIndices) (hflex : getFlexible b.2 0 s.src = .done x []) :
    ∃ s', s.ready b.1 = .inl s' ∧ s'.ctx.state = .indexedNameText ∧ s'.src = [] := by
  have hlit : ∃ add mask, s.ready b.1 = literalIndex { s with ctx.flags.add := add } mask b.1 ∧
      b.1.toNat % mask = b.2 ∧ mask - 1 = b.2 := by
    simp only [Place.longIndices, mem_cons, not_mem_nil, or_false] at hb
    obtain rfl | rfl | rfl := hb
    · exact ⟨true, 64, rfl, rfl, rfl⟩
    · exact ⟨s.ctx.flags.add, 16, rfl, rfl, rfl⟩
    · exact ⟨s.ctx.flags.add, 16, rfl, rfl, rfl⟩
  obtain ⟨add, mask, hready, hfull, hmask⟩ := hlit
  rw [hready, literalIndex, hfull, if_pos hmask.symm, hflex]
  exact ⟨_, rfl, rfl, rfl⟩

/-- Behind such a literal the byte of the value is read behind the data, unless the index is
refused. -/
lemma Visited.read_behind (hvis : Visited env s₀ s) (hst : s.ctx.state = .ready)
    (hb : b ∈ Place.longIndices) (hsrc : s.src = b.1 :: src)
    (hflex : getFlexible b.2 0 src = .done x []) :
    (∃ s', Visited env s₀ s' ∧ s'.ctx.state = .value ∧ s'.src = []) ∨
      ∃ r, Ends (step env) s₀ r ∧ Refused r := by
  obtain ⟨s₁, hready, hst₁, hsrc₁⟩ := ready_long (s := { s with src := src }) hb hflex
  have hstep : s.step env = .inl s₁ := by
    rw [step, hst]
    rw [readByte, hsrc]
    exact hready
  have hcase : (∃ s₂, s₁.step env = .inl s₂ ∧ s₂.ctx.state = .value ∧ s₂.src = []) ∨
      ∃ r, s₁.step env = .inr r ∧ Refused r := by
    rw [step, hst₁]
    dsimp only
    rw [indexedNameText]
    split
    · exact .inr ⟨_, rfl, .inr ⟨_, rfl, rfl⟩⟩
    · exact .inr ⟨_, rfl, .inl rfl⟩
    · split
      · exact .inr ⟨_, rfl, .inr ⟨_, rfl, rfl⟩⟩
      · exact .inl ⟨_, rfl, rfl, hsrc₁⟩
  rcases hcase with ⟨s₂, hstep₁, hst₂⟩ | ⟨r, hstep₁, href⟩
  · exact .inl ⟨s₂, (hvis.tail hstep).tail hstep₁, hst₂⟩
  · exact .inr ⟨r, Ends.of_reach hvis (.next hstep (.stop hstep₁)), href⟩

end DecodeState

end Tempesta.Hpack
