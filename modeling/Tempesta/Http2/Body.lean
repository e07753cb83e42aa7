import Tempesta.Http2.Delivery

/-!
The body of a request. `tfw_h2_parse_body` takes the length of a DATA frame from
`plen`, which counts the padding, while the padding never reaches it: behind a
padded frame the parser still waits for data of that frame.
-/

namespace Tempesta.Http2

open List TfwH2Ctx FrameRec

/-- `to_read` of the parser of a stream, and `body` of the request. -/
structure H2Body where
  toRead : Int
  body : List UInt8
  deriving DecidableEq, Repr

/-- `tfw_http_init_parser_req` -/
def H2Body.init : H2Body := ⟨-1, []⟩

/-- `tfw_h2_parse_body`, with the number of bytes that it has parsed. What it returns
otherwise does not matter: `tfw_h2_parse_req` makes `T_POSTPONE` of `T_OK`. -/
def tfwH2ParseBody (plen : Nat) (b : H2Body) (data : List UInt8) :
    Except H2Stop (H2Body × Nat) :=
  if b.toRead = -1 ∧ plen = 0 then .error (.drop none)
  else
    let toRead : Int := if b.toRead = -1 then plen else b.toRead
    if toRead < 0 then .error .bug
    else
      let mLen := min toRead.toNat data.length
      if toRead - mLen ≠ 0 then .ok (⟨toRead - mLen, b.body ++ data⟩, mLen)
      else .ok (⟨-1, b.body ++ data.take mLen⟩, mLen)

/-- `ss_skb_process` over the fragments of an skb. -/
def ssSkbProcess (plen : Nat) (b : H2Body) (frags : List (List UInt8)) :
    Except H2Stop (H2Body × Nat) :=
  frags.foldlM (fun (b, parsed) data => do
    let (b, n) ← tfwH2ParseBody plen b data
    .ok (b, parsed + n)) (b, 0)

/-- `tfw_http_req_process` for a piece of a DATA frame: the parser has to eat all of it. -/
def tfwHttpReqProcess (plen : Nat) (b : H2Body) (frags : List (List UInt8)) :
    Except H2Stop H2Body := do
  let (b, parsed) ← ssSkbProcess plen b frags
  if parsed ≠ frags.flatten.length then .error (.drop none) else .ok b

/-- A DATA frame with its pieces, each with the fragments of its skb. -/
abbrev CutFrame := FrameRec × List (Upcall × List (List UInt8))

def parseFrame (b : H2Body) (fc : CutFrame) : Except H2Stop H2Body :=
  fc.2.foldlM (fun b c => tfwHttpReqProcess c.1.plen b c.2) b

def parseFrames (fs : List CutFrame) : Except H2Stop H2Body :=
  fs.foldlM parseFrame .init

/-- The fragments of a piece. -/
structure Fragments (p : Upcall) (frags : List (List UInt8)) : Prop where
  data : frags.flatten = p.data
  ne : ∀ d ∈ frags, d ≠ []

variable {n req : Nat} {body : List UInt8} {frags : List (List UInt8)} {p : Upcall}
  {cs : List (Upcall × List (List UInt8))} {c : Upcall × List (List UInt8)} {f : FrameRec}
  {q : FrameRec → Bool} {h2 : TfwH2Ctx}

section Parser

/-- The parser with `n` bytes of a frame of length `plen` behind it. -/
def H2Body.at (plen n : Nat) (body : List UInt8) : H2Body :=
  ⟨if n = 0 ∨ n = plen then -1 else (plen : Int) - n, body⟩

variable {plen : Nat}

lemma H2Body.at_start : H2Body.at plen 0 body = ⟨-1, body⟩ := by
  rw [H2Body.at, if_pos (.inl rfl)]

lemma H2Body.at_toRead (hle : n ≤ plen) :
    (H2Body.at plen n body).toRead = -1 ↔ n = 0 ∨ n = plen := by
  show (if n = 0 ∨ n = plen then (-1 : Int) else plen - n) = -1 ↔ _
  by_cases h : n = 0 ∨ n = plen
  · rw [if_pos h]
    exact iff_of_true rfl h
  · rw [if_neg h]
    omega

lemma H2Body.at_left (hlt : n < plen) :
    (if (H2Body.at plen n body).toRead = -1 then (plen : Int)
      else (H2Body.at plen n body).toRead) = (plen - n : Nat) := by
  by_cases h : n = 0
  · rw [if_pos ((H2Body.at_toRead hlt.le).mpr (.inl h)), h, Nat.sub_zero]
  · rw [if_neg fun hread => ?_]
    · show (if n = 0 ∨ n = plen then (-1 : Int) else plen - n) = _
      rw [if_neg (by omega)]
      omega
    · have := (H2Body.at_toRead hlt.le).mp hread
      omega

lemma parseBody_at {data : List UInt8} (hd : data ≠ []) (hle : n + data.length ≤ plen) :
    tfwH2ParseBody plen (.at plen n body) data =
      .ok (.at plen (n + data.length) (body ++ data), data.length) := by
  have hpos := length_pos_of_ne_nil hd
  unfold tfwH2ParseBody
  rw [if_neg (by omega), H2Body.at_left (by omega)]
  simp only [Int.toNat_natCast]
  rw [if_neg (by omega), Nat.min_eq_right (by omega)]
  by_cases hend : n + data.length = plen
  · rw [if_neg (by omega), take_length]
    unfold H2Body.at
    rw [if_pos (show n + data.length = 0 ∨ n + data.length = plen from .inr hend)]
  · rw [if_pos (by omega)]
    unfold H2Body.at
    rw [if_neg (show ¬(n + data.length = 0 ∨ n + data.length = plen) by omega)]
    congr 3
    omega

lemma ssSkbProcess_at (hne : ∀ d ∈ frags, d ≠ []) (hle : n + frags.flatten.length ≤ plen)
    (k : Nat) :
    frags.foldlM (fun (b, parsed) data => do
        let (b, n) ← tfwH2ParseBody plen b data
        .ok (b, parsed + n)) (H2Body.at plen n body, k) =
      (.ok (.at plen (n + frags.flatten.length) (body ++ frags.flatten),
        k + frags.flatten.length) : Except H2Stop _) := by
  induction frags generalizing n body k with
  | nil =>
    simp only [flatten_nil, append_nil, length_nil, Nat.add_zero]
    rfl
  | cons d frags ih =>
    rw [flatten_cons, length_append] at hle
    rw [foldlM_cons]
    simp only [parseBody_at (hne d mem_cons_self) (show n + d.length ≤ plen by omega)]
    rw [flatten_cons, length_append, ← Nat.add_assoc, ← Nat.add_assoc,
      ← append_assoc]
    exact ih (fun d hd => hne d (mem_cons_of_mem _ hd)) (by omega) (k + d.length)

lemma tfwHttpReqProcess_at (h : Fragments p frags) (hle : n + p.data.length ≤ plen) :
    tfwHttpReqProcess plen (.at plen n body) frags =
      .ok (.at plen (n + p.data.length) (body ++ p.data)) := by
  rw [← h.data] at hle ⊢
  unfold tfwHttpReqProcess ssSkbProcess
  rw [ssSkbProcess_at h.ne hle 0, Nat.zero_add]
  show (if _ then _ else _) = _
  rw [if_neg (not_not_intro rfl)]

lemma parsePieces_at (body : List UInt8) (hcut : ∀ c ∈ cs, Fragments c.1 c.2)
    (hplen : ∀ c ∈ cs, c.1.plen = plen) (hle : n + (cs.flatMap (·.1.data)).length ≤ plen) :
    cs.foldlM (fun b c => tfwHttpReqProcess c.1.plen b c.2) (H2Body.at plen n body) =
      .ok (.at plen (n + (cs.flatMap (·.1.data)).length) (body ++ cs.flatMap (·.1.data))) := by
  induction cs generalizing n body with
  | nil =>
    simp only [flatMap_nil, append_nil, length_nil, Nat.add_zero]
    rfl
  | cons c cs ih =>
    rw [flatMap_cons, length_append] at hle
    rw [foldlM_cons, hplen c mem_cons_self,
      tfwHttpReqProcess_at (hcut c mem_cons_self) (by omega)]
    rw [flatMap_cons, length_append, ← Nat.add_assoc, ← append_assoc]
    exact ih _ (fun d hd => hcut d (mem_cons_of_mem _ hd))
      (fun d hd => hplen d (mem_cons_of_mem _ hd)) (by omega)

end Parser

variable {fs : List CutFrame}

section Frames

def CutFrame.data (fc : CutFrame) (n : Nat) : List UInt8 :=
  (fc.2.take n).flatMap (·.1.data)

/-- On the DATA frames `fs` of a request: after any piece, the body is what has been
handed up, and the frame is taken as complete exactly at the end of its data. -/
def BodyExact (fs : List CutFrame) : Prop :=
  ∀ pre fc post n, fs = pre ++ fc :: post → 0 < n → n ≤ fc.2.length →
    ∃ b, parseFrames (pre ++ [(fc.1, fc.2.take n)]) = .ok b ∧
      b.body = pre.flatMap (·.1.app) ++ fc.data n ∧
      (b.toRead = -1 ↔ (fc.data n).length = fc.1.appLen)

/-- A DATA frame as the parser meets it. -/
structure CutFrame.Ok (fc : CutFrame) : Prop where
  passed : fc.1.Passed
  pieces : fc.2.map Prod.fst = fc.1.pieces
  ne : fc.2 ≠ []
  cut : ∀ c ∈ fc.2, Fragments c.1 c.2

variable {fc : CutFrame}

lemma CutFrame.Ok.mem (h : fc.Ok) (hc : c ∈ fc.2) : c.1 ∈ fc.1.pieces :=
  h.pieces ▸ mem_map_of_mem hc

lemma CutFrame.Ok.handed (h : fc.Ok) : fc.2.flatMap (·.1.data) = fc.1.app := by
  rw [← h.passed.all, FrameRec.handed, ← h.pieces, flatMap_map]

lemma CutFrame.Ok.data_all (h : fc.Ok) : fc.data fc.2.length = fc.1.app := by
  rw [CutFrame.data, take_length, h.handed]

lemma CutFrame.Ok.data_le (h : fc.Ok) (n : Nat) : (fc.data n).length ≤ fc.1.app.length := by
  have hsplit := congrArg (List.flatMap (·.1.data)) (take_append_drop n fc.2)
  rw [flatMap_append, h.handed] at hsplit
  rw [← hsplit, length_append]
  exact Nat.le_add_right _ _

lemma CutFrame.Ok.data_pos (h : fc.Ok) (hn : 0 < n) : 0 < (fc.data n).length := by
  cases hp : fc.2 with
  | nil => exact absurd hp h.ne
  | cons c cs =>
    have hne := (h.passed.pieces c.1 (h.mem (hp ▸ mem_cons_self))).data
    obtain ⟨m, rfl⟩ := Nat.exists_eq_succ_of_ne_zero hn.ne'
    rw [CutFrame.data, hp, take_succ_cons, flatMap_cons, length_append]
    have := length_pos_of_ne_nil hne
    omega

lemma CutFrame.Ok.plen (h : fc.Ok) : ∀ c ∈ fc.2, c.1.plen = fc.1.appLen + fc.1.padLen := by
  intro c hc
  have hpos := h.data_pos (length_pos_of_ne_nil h.ne)
  have hle := fc.1.app_length_le
  have hplen := (h.passed.pieces c.1 (h.mem hc)).plen
  rw [h.data_all] at hpos
  unfold appLen at hle ⊢
  omega

lemma CutFrame.Ok.parseFrame (h : fc.Ok) (body : List UInt8) (n : Nat) :
    parseFrame ⟨-1, body⟩ (fc.1, fc.2.take n) =
      .ok (.at (fc.1.appLen + fc.1.padLen) (fc.data n).length (body ++ fc.data n)) := by
  have hle := (h.data_le n).trans fc.1.app_length_le
  have hparse := parsePieces_at (n := 0) body
    (fun c hc => h.cut c (mem_of_mem_take hc))
    (fun c hc => h.plen c (mem_of_mem_take hc))
    (show 0 + (fc.data n).length ≤ _ by omega)
  rw [H2Body.at_start, Nat.zero_add] at hparse
  exact hparse

lemma parseFrames_concat :
    parseFrames (fs ++ [fc]) = parseFrames fs >>= (Tempesta.Http2.parseFrame · fc) := by
  unfold parseFrames
  rw [foldlM_append]
  congr 1
  funext b
  rw [foldlM_cons]
  exact bind_pure _

lemma take_pieces : (fc.1, fc.2.take fc.2.length) = fc := by
  rw [take_length]

lemma parseFrames_unpadded (hok : ∀ fc ∈ fs, fc.Ok)
    (hfull : ∀ fc ∈ fs, fc.1.app.length = fc.1.appLen ∧ fc.1.padLen = 0) :
    parseFrames fs = .ok ⟨-1, fs.flatMap (·.1.app)⟩ := by
  induction fs using List.reverseRecOn with
  | nil => rfl
  | append_singleton fs fc ih =>
    have hlast : fc ∈ fs ++ [fc] := mem_append_right _ (mem_singleton_self _)
    have h := hok fc hlast
    obtain ⟨hlen, hpad⟩ := hfull fc hlast
    have hfc := h.parseFrame (fs.flatMap (·.1.app)) fc.2.length
    rw [take_pieces, h.data_all, hpad, Nat.add_zero, hlen] at hfc
    rw [parseFrames_concat, ih (fun c hc => hok c (mem_append_left _ hc))
      fun c hc => hfull c (mem_append_left _ hc)]
    show Tempesta.Http2.parseFrame _ fc = _
    rw [hfc, flatMap_append, flatMap_singleton]
    unfold H2Body.at
    rw [if_pos (.inr rfl)]

/-- Only the last frame may be in progress. -/
structure CutFrames (fs : List CutFrame) : Prop where
  ok : ∀ fc ∈ fs, fc.Ok
  full : ∀ pre fc post, fs = pre ++ fc :: post → post ≠ [] → fc.1.app.length = fc.1.appLen

variable {pre post : List CutFrame}

lemma CutFrames.full_of_pre (h : CutFrames (pre ++ fc :: post)) :
    ∀ c ∈ pre, c.1.app.length = c.1.appLen := by
  intro c hc
  obtain ⟨pre₁, pre₂, rfl⟩ := append_of_mem hc
  refine h.full pre₁ c (pre₂ ++ fc :: post) ?_ ?_
  · rw [append_assoc, cons_append]
  · exact append_ne_nil_of_right_ne_nil _ (cons_ne_nil _ _)

lemma CutFrames.bodyExact (h : CutFrames fs)
    (hpad : ∀ fc ∈ fs, fc.1.app.length = fc.1.appLen → fc.1.padLen = 0) : BodyExact fs := by
  rintro pre fc post n rfl hn -
  have hmem : fc ∈ pre ++ fc :: post := mem_append_right _ mem_cons_self
  have hfc := h.ok fc hmem
  have hpre : parseFrames pre = .ok ⟨-1, pre.flatMap (·.1.app)⟩ := by
    refine parseFrames_unpadded (fun c hc => h.ok c (mem_append_left _ hc)) fun c hc => ?_
    have hfull := h.full_of_pre c hc
    exact ⟨hfull, hpad c (mem_append_left _ hc) hfull⟩
  have hpos := hfc.data_pos hn
  have hle := hfc.data_le n
  have hlen := fc.1.app_length_le
  refine ⟨.at (fc.1.appLen + fc.1.padLen) (fc.data n).length (pre.flatMap (·.1.app) ++ fc.data n),
    ?_, rfl, ?_⟩
  · rw [parseFrames_concat, hpre]
    exact hfc.parseFrame _ n
  · rw [H2Body.at_toRead (by omega)]
    have := hpad fc hmem
    omega

lemma CutFrames.unpadded (h : CutFrames fs) (hex : BodyExact fs) :
    ∀ fc ∈ fs, fc.1.app.length = fc.1.appLen → fc.1.padLen = 0 := by
  intro fc hmem hfull
  obtain ⟨pre, post, rfl⟩ := append_of_mem hmem
  have hfc := h.ok fc hmem
  have hpre : ∃ body, parseFrames pre = .ok ⟨-1, body⟩ := by
    rcases eq_nil_or_concat' pre with rfl | ⟨pre, c, rfl⟩
    · exact ⟨[], rfl⟩
    · have hc : c ∈ pre ++ [c] := mem_append_right _ (mem_singleton_self _)
      have hok := h.ok c (mem_append_left _ hc)
      obtain ⟨⟨toRead, body⟩, hb, -, hread⟩ := hex pre c (fc :: post) c.2.length
        (by rw [append_assoc]; rfl) (length_pos_of_ne_nil hok.ne) le_rfl
      rw [take_pieces] at hb
      rw [hok.data_all, h.full_of_pre c hc] at hread
      rw [hb, show toRead = -1 from hread.mpr rfl]
      exact ⟨body, rfl⟩
  obtain ⟨body, hbody⟩ := hpre
  obtain ⟨b, hb, -, hread⟩ := hex pre fc post fc.2.length rfl (length_pos_of_ne_nil hfc.ne) le_rfl
  have hpos := hfc.data_pos (length_pos_of_ne_nil hfc.ne)
  rw [parseFrames_concat, hbody] at hb
  cases (hfc.parseFrame body fc.2.length).symm.trans hb
  rw [hfc.data_all] at hread hpos
  rw [H2Body.at_toRead (by omega)] at hread
  have := hread.mpr hfull
  omega

end Frames

/-- The DATA frames that were handed up for a request. -/
def TfwH2Ctx.dataFrames (h2 : TfwH2Ctx) (req : Nat) : List FrameRec :=
  h2.frames.filter fun f => f.hdr.type = .data ∧ ∃ p ∈ f.pieces, p.req = some req

lemma FrameRec.Ended.app_length (h : f.Ended) (happ : f.isApp = true) :
    f.app.length = f.appLen := by
  have hpad := f.padBytes_le_fieldsLen
  rw [FrameRec.app, if_pos happ, length_take, length_drop]
  rcases h.whole with hlen | ⟨-, -, hlen⟩ | ⟨-, -, hlen⟩
  · rw [hlen]
    unfold appLen
    omega
  · unfold appLen
    omega
  · unfold appLen
    omega

lemma mem_log_of_frames {pre post : List FrameRec} (h : h2.frames.filter q = pre ++ f :: post)
    (hpost : post ≠ []) : f ∈ h2.log := by
  obtain ⟨g, post, rfl⟩ := exists_cons_of_ne_nil hpost
  unfold frames at h
  by_cases hhead : h2.cur.head.length = frameHeaderSize
  · rw [if_pos hhead, filter_append] at h
    cases hq : q h2.cur with
    | true =>
      rw [filter_singleton, hq, cond_true] at h
      have hconcat : h2.log.filter q ++ [h2.cur] = (pre ++ [f]) ++ g :: post := by
        rw [h, append_assoc]
        rfl
      refine mem_of_mem_filter (mem_of_append_concat hconcat f ?_)
      exact mem_append_right _ (mem_singleton_self _)
    | false =>
      rw [filter_singleton, hq, cond_false, append_nil] at h
      refine mem_of_mem_filter (p := q) ?_
      rw [h]
      exact mem_append_right _ mem_cons_self
  · rw [if_neg hhead] at h
    refine mem_of_mem_filter (p := q) ?_
    rw [h]
    exact mem_append_right _ mem_cons_self

lemma ConnInv.cutFrames (hi : ConnInv h2) (hfs : fs.map Prod.fst = h2.dataFrames req)
    (hpieces : ∀ fc ∈ fs, fc.2.map Prod.fst = fc.1.pieces)
    (hcut : ∀ fc ∈ fs, ∀ c ∈ fc.2, Fragments c.1 c.2) : CutFrames fs := by
  have hdata : ∀ fc ∈ fs, fc.1 ∈ h2.frames ∧ fc.1.hdr.type = .data ∧
      ∃ p ∈ fc.1.pieces, p.req = some req := by
    intro fc hfc
    have hmem : fc.1 ∈ h2.dataFrames req := hfs ▸ mem_map_of_mem hfc
    unfold dataFrames at hmem
    rw [mem_filter, decide_eq_true_iff] at hmem
    exact hmem
  constructor
  · intro fc hfc
    obtain ⟨hmem, -, p, hp, -⟩ := hdata fc hfc
    refine ⟨hi.mem_frames hmem, hpieces fc hfc, ?_, hcut fc hfc⟩
    intro hnil
    rw [← hpieces fc hfc, hnil] at hp
    cases hp
  · rintro pre fc post rfl hpost
    obtain ⟨-, htype, -⟩ := hdata fc (mem_append_right _ mem_cons_self)
    have hlog : fc.1 ∈ h2.log := by
      rw [dataFrames, map_append, map_cons] at hfs
      exact mem_log_of_frames hfs.symm fun hnil => hpost (map_eq_nil_iff.mp hnil)
    refine (hi.ended fc.1 hlog).app_length ?_
    rw [isApp, htype]
    rfl

/-- For every run and every request, with the DATA frames handed up for it in any
fragments, none of them for another request: the body is exact and each frame
recognised as complete at the end of its data, if and only if no frame whose data has
been received is padded. -/
theorem body_exact_iff {es : List H2Event} {s : H2Sys} (h : es.foldlM h2Step h2Init = some s)
    (req : Nat) {fs : List CutFrame} (hfs : fs.map Prod.fst = s.h2.dataFrames req)
    (hpieces : ∀ fc ∈ fs, fc.2.map Prod.fst = fc.1.pieces ∧ ∀ p ∈ fc.1.pieces, p.req = some req)
    (hcut : ∀ fc ∈ fs, ∀ c ∈ fc.2, Fragments c.1 c.2) :
    BodyExact fs ↔ ∀ fc ∈ fs, fc.1.app.length = fc.1.appLen → fc.1.padLen = 0 := by
  have hframes := (h2Run_init h).inv.cutFrames hfs (fun fc hfc => (hpieces fc hfc).1) hcut
  exact ⟨hframes.unpadded, hframes.bodyExact⟩

def FrameRec.unfragmented (f : FrameRec) : CutFrame :=
  (f, f.pieces.map fun p => (p, [p.data]))

/-- A request with a DATA frame of three bytes in two skbs. -/
def bodyRun : List H2Event :=
  requestRun.take 1 ++
    [.recv (h2Frame 1 4 1 [0x82]) .quiet, .recv [0, 0, 3, 0, 1, 0, 0, 0, 1, 65] .quiet,
      .recv [66, 67] .quiet]

theorem body_exact_unpadded :
    ∃ s, bodyRun.foldlM h2Step h2Init = some s ∧ (s.h2.dataFrames 0).length = 1 ∧
      BodyExact ((s.h2.dataFrames 0).map FrameRec.unfragmented) := by
  have hrun : (bodyRun.foldlM h2Step h2Init).map (fun s => decide
      ((s.h2.dataFrames 0).length = 1 ∧ ∀ f ∈ s.h2.dataFrames 0,
        (∀ p ∈ f.pieces, p.req = some 0 ∧ p.data ≠ []) ∧ f.padLen = 0)) = some true := by
    decide +kernel
  obtain ⟨s, hs, heq⟩ := Option.map_eq_some_iff.mp hrun
  obtain ⟨hlen, hall⟩ := of_decide_eq_true heq
  refine ⟨s, hs, hlen, (body_exact_iff hs 0 ?_ ?_ ?_).mpr ?_⟩
  · rw [map_map]
    exact map_id _
  · intro fc hfc
    obtain ⟨f, hf, rfl⟩ := mem_map.mp hfc
    refine ⟨?_, fun p hp => ((hall f hf).1 p hp).1⟩
    show (f.pieces.map fun p => (p, [p.data])).map Prod.fst = f.pieces
    rw [map_map]
    exact map_id _
  · intro fc hfc c hc
    obtain ⟨f, hf, rfl⟩ := mem_map.mp hfc
    obtain ⟨p, hp, rfl⟩ := mem_map.mp hc
    refine ⟨flatten_singleton, fun d hd => ?_⟩
    rw [mem_singleton.mp hd]
    exact ((hall f hf).1 p hp).2
  · intro fc hfc _
    obtain ⟨f, hf, rfl⟩ := mem_map.mp hfc
    exact (hall f hf).2

/-- Behind a frame with two bytes of padding the parser waits for two more bytes, and
the next DATA frame is refused. -/
theorem padded_body_incomplete :
    ∃ s f, paddedRun.foldlM h2Step h2Init = some s ∧ s.h2.dataFrames 0 = [f] ∧ f.app = [65] ∧
      parseFrames [f.unfragmented] = .ok ⟨2, [65]⟩ ∧ ¬BodyExact [f.unfragmented] ∧
      tfwHttpReqProcess 3 ⟨2, [65]⟩ [[66, 67, 68]] = .error (.drop none) := by
  have hrun : (paddedRun.foldlM h2Step h2Init).map (fun s => decide
      ((s.h2.dataFrames 0).length = 1 ∧ ∀ f ∈ s.h2.dataFrames 0, f.app = [65] ∧ f.appLen = 1 ∧
        f.pieces.length = 1 ∧ f.unfragmented.data 1 = [65] ∧
        parseFrames [f.unfragmented] = .ok ⟨2, [65]⟩)) = some true := by
    decide +kernel
  obtain ⟨s, hs, heq⟩ := Option.map_eq_some_iff.mp hrun
  obtain ⟨hlen, hall⟩ := of_decide_eq_true heq
  obtain ⟨f, hf⟩ := length_eq_one_iff.mp hlen
  obtain ⟨happ, hone, hpieces, hdata, hparse⟩ := hall f (hf ▸ mem_singleton_self _)
  refine ⟨s, f, hs, hf, happ, hparse, fun hex => ?_, by decide⟩
  have hlength : f.unfragmented.2.length = 1 := (length_map _).trans hpieces
  obtain ⟨b, hb, -, hread⟩ := hex [] f.unfragmented [] 1 rfl Nat.one_pos hlength.ge
  rw [← hlength, take_pieces, nil_append, hparse] at hb
  cases hb
  rw [hdata] at hread
  exact absurd (hread.mpr hone.symm) (by decide)

end Tempesta.Http2
