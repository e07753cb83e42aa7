import Tempesta.Http.H2Header
import Tempesta.Http.Chars
import Tempesta.Lib.Chain
import Tempesta.Str.Alphabet

/-!
The method of a request line. With nine characters at hand it is compared by words,
else one character after the other; the parser goes on where it stopped when more
data arrives.
-/

namespace Tempesta.Http.ReqLine

open List ScanLib ChainLib

/-- Where the parser is behind the first character: a state `Req_MethX`, named after
the characters seen, `Req_MethodUnknown`, or `Req_MUSpace` with `req->method`. -/
inductive MethodState where
  | meth (seen : List UInt8)
  | methodUnknown
  | muSpace (method : TfwHttpMeth)
  deriving DecidableEq, Repr

/-- `Req_0` with the fall through to `Req_Method`, and the states behind it -/
inductive ReqState where
  | req0
  | method (st : MethodState)
  deriving DecidableEq, Repr

/-- The parser comes to `Req_Uri`, or it blocks. -/
inductive MethodRet where
  | accepted (method : TfwHttpMeth)
  | blocked
  deriving DecidableEq, Repr

/-- The chains of `__FSM_METH_MOVE` and `__FSM_METH_MOVE_finish` -/
def methods : List (List UInt8 × TfwHttpMeth) :=
  [(ofAscii "GET", .get), (ofAscii "POST", .post), (ofAscii "PATCH", .patch),
    (ofAscii "PROPFIND", .propfind), (ofAscii "PROPPATCH", .proppatch), (ofAscii "PUT", .put),
    (ofAscii "PURGE", .purge), (ofAscii "HEAD", .head), (ofAscii "COPY", .copy),
    (ofAscii "DELETE", .delete), (ofAscii "LOCK", .lock), (ofAscii "MKCOL", .mkcol),
    (ofAscii "MOVE", .move), (ofAscii "OPTIONS", .options), (ofAscii "TRACE", .trace),
    (ofAscii "UNLOCK", .unlock)]

/-- One character of a chain: its last one sets the method, and a character off the
chains is skipped. -/
def methMove (seen : List UInt8) (c : UInt8) : MethodState :=
  match move methods seen c with
  | .whole m => .muSpace m
  | .part => .meth (seen ++ [c])
  | .off => .methodUnknown

/-- `Req_MUSpace` -/
def muSpaceStep (method : TfwHttpMeth) (c : UInt8) : MethodRet :=
  if c = 0x20 then .accepted method else .blocked

/-- The words of `Req_Method_RareMethods` and what may follow each -/
def rareMethods : List (List UInt8 × List (List UInt8 × TfwHttpMeth)) :=
  [(ofAscii "HEAD", [(ofAscii "", .head)]),
    (ofAscii "PURG", [(ofAscii "E", .purge)]),
    (ofAscii "COPY", [(ofAscii "", .copy)]),
    (ofAscii "DELE", [(ofAscii "TE", .delete)]),
    (ofAscii "LOCK", [(ofAscii "", .lock)]),
    (ofAscii "MKCO", [(ofAscii "L", .mkcol)]),
    (ofAscii "MOVE", [(ofAscii "", .move)]),
    (ofAscii "PATC", [(ofAscii "H", .patch)]),
    (ofAscii "PROP", [(ofAscii "FIND", .propfind), (ofAscii "PATCH", .proppatch)]),
    (ofAscii "TRAC", [(ofAscii "E", .trace)]),
    (ofAscii "UNLO", [(ofAscii "CK", .unlock)])]

/-- `Req_Method_RareMethods`: where to go on and behind how many characters -/
def rareMethod (p : List UInt8) : (MethodState × Nat) ⊕ MethodRet :=
  if p.take 4 = ofAscii "OPTI" then
    if (p.drop 4).take 4 = ofAscii "ONS " then .inr (.accepted .options)
    else .inl (.meth (ofAscii "OPTI"), 4)
  else if p.take 4 = ofAscii "PUT " then .inr (.accepted .put)
  else
    match rareMethods.find? fun x => x.1 == p.take 4 with
    | some (word, tails) =>
      match tails.find? fun x => x.1.isPrefixOf (p.drop 4) with
      | some (tail, method) => .inl (.muSpace method, 4 + tail.length)
      | none => .inl (.meth word, 4)
    | none => .inl (.methodUnknown, 1)

/-- `Req_Method` with nine characters -/
def fastMethod (p : List UInt8) : (MethodState × Nat) ⊕ MethodRet :=
  if p.take 4 = ofAscii "GET " then .inr (.accepted .get)
  else if p.take 4 = ofAscii "POST" then .inl (.muSpace .post, 4)
  else rareMethod p

section parser
variable (token : UInt8 → Bool)

/-- The states behind `Req_Method` on a piece of data -/
def parseMethod : MethodState → List UInt8 → ReqState ⊕ MethodRet
  | .meth seen, [] => .inl (.method (.meth seen))
  | .meth seen, c :: data => parseMethod (methMove seen c) data
  | .methodUnknown, data =>
    match data.dropWhile token with
    | [] => .inl (.method .methodUnknown)
    | c :: _ => .inr (muSpaceStep .unknown c)
  | .muSpace method, [] => .inl (.method (.muSpace method))
  | .muSpace method, c :: _ => .inr (muSpaceStep method c)

/-- `tfw_http_parse_req` up to `Req_Uri` -/
def parseReq : ReqState → List UInt8 → ReqState ⊕ MethodRet
  | .method st, data => parseMethod token st data
  | .req0, [] => .inl .req0
  | .req0, c :: data =>
    if isCrlf c then parseReq .req0 data
    else if 9 ≤ (c :: data).length then
      match fastMethod ((c :: data).take 9) with
      | .inl (st, n) => parseMethod token st ((c :: data).drop n)
      | .inr r => .inr r
    else parseMethod token (methMove [] c) data

def methodVerdict (r : ReqState ⊕ MethodRet) : Option MethodRet := r.getRight?

/-- The cut of the stream does not matter for the method. -/
def SegmentationFree (stream : List UInt8) : Prop :=
  ∀ pieces : List (List UInt8), (∀ d ∈ pieces, d ≠ []) → pieces.flatten = stream →
    methodVerdict (feed (parseReq token) .req0 pieces) =
      methodVerdict (feed (parseReq token) .req0 [stream])

end parser

theorem methods_prefixFree : PrefixFree methods := by
  decide +kernel

lemma part_nil : Part methods [] := by
  decide +kernel

variable {d l l' w name : List UInt8} {ds : List (List UInt8)} {n : Nat} {m : TfwHttpMeth}
  {x : List UInt8 × List (List UInt8 × TfwHttpMeth)} {a b : Option UInt8}

section slow
variable (token : UInt8 → Bool)

/-- One character of a state behind `Req_Method` -/
def methodStep : MethodState → UInt8 → ReqState ⊕ MethodRet
  | .meth seen, c => .inl (.method (methMove seen c))
  | .methodUnknown, c =>
    if token c then .inl (.method .methodUnknown) else .inr (muSpaceStep .unknown c)
  | .muSpace method, c => .inr (muSpaceStep method c)

def reqStep : ReqState → UInt8 → ReqState ⊕ MethodRet
  | .req0, c => .inl (if isCrlf c then .req0 else .method (methMove [] c))
  | .method st, c => methodStep token st c

variable {token}

lemma scan_methodUnknown :
    scan (reqStep token) (.method .methodUnknown) l =
      match l.dropWhile token with
      | [] => .inl (.method .methodUnknown)
      | c :: _ => .inr (muSpaceStep .unknown c) := by
  induction l with
  | nil => rfl
  | cons c l ih =>
    by_cases hc : token c
    · rw [scan_next (if_pos hc), ih, dropWhile_cons_of_pos hc]
    · rw [scan_stop (if_neg hc), dropWhile_cons_of_neg hc]

variable {st : MethodState}

lemma parseMethod_eq_scan (data : List UInt8) :
    parseMethod token st data = scan (reqStep token) (.method st) data := by
  induction data generalizing st with
  | nil => cases st <;> rfl
  | cons c data ih =>
    cases st with
    | meth seen =>
      rw [parseMethod, ih]
      exact (scan_next rfl).symm
    | methodUnknown => rw [scan_methodUnknown, parseMethod]
    | muSpace method => exact (scan_stop rfl).symm

/-- The verdict of `Req_Method_RareMethods` and the states it leads to -/
def fastRead (token : UInt8 → Bool) (w : List UInt8) : ReqState ⊕ MethodRet :=
  match fastMethod (w.take 9) with
  | .inl (st, n) => scan (reqStep token) (.method st) (w.drop n)
  | .inr r => .inr r

lemma parseReq_req0 (data : List UInt8) :
    parseReq token .req0 data =
      if 9 ≤ (data.dropWhile isCrlf).length then fastRead token (data.dropWhile isCrlf)
      else scan (reqStep token) .req0 data := by
  induction data with
  | nil => rfl
  | cons c data ih =>
    by_cases hc : isCrlf c
    · rw [parseReq, if_pos hc, ih, dropWhile_cons_of_pos hc]
      rw [scan_next (show reqStep token .req0 c = .inl .req0 by rw [reqStep, if_pos hc])]
    · rw [parseReq, if_neg hc, dropWhile_cons_of_neg hc]
      split
      · simp only [fastRead, parseMethod_eq_scan]
      · rw [parseMethod_eq_scan]
        refine (scan_next ?_).symm
        rw [reqStep, if_neg hc]

variable {s : ReqState} {c : UInt8}

lemma reqStep_method (h : reqStep token (.method st) c = .inl s) : s ≠ .req0 := by
  rintro rfl
  obtain seen | _ | method := st
  · cases h
  · change (if token c then _ else _) = _ at h
    split at h <;> cases h
  · cases h

variable {s' : ReqState}

lemma reqStep_ne_req0 (hs : s ≠ .req0) (h : reqStep token s c = .inl s') : s' ≠ .req0 := by
  cases s with
  | req0 => exact absurd rfl hs
  | method st => exact reqStep_method h

lemma feed_cons_of_method (hds : ∀ d ∈ ds, d ≠ [])
    (h : parseReq token s d = scan (reqStep token) (.method st) l) :
    feed (parseReq token) s (d :: ds) = scan (reqStep token) (.method st) (l ++ ds.flatten) := by
  refine feed_cons_of_scan (I := fun s => s ≠ .req0) (fun s c s' => reqStep_ne_req0) ?_
    (fun s₁ => scan_invariant (fun s c s' => reqStep_ne_req0) (fun h => by cases h)) hds h
  intro s d hs _
  cases s with
  | req0 => exact absurd rfl hs
  | method st => rw [parseReq, parseMethod_eq_scan]

lemma scan_req0 :
    scan (reqStep token) .req0 l =
      if l.dropWhile isCrlf = [] then .inl .req0
      else scan (reqStep token) (.method (.meth [])) (l.dropWhile isCrlf) := by
  induction l with
  | nil => rfl
  | cons c l ih =>
    by_cases hc : isCrlf c
    · rw [scan_next (show reqStep token .req0 c = .inl .req0 by rw [reqStep, if_pos hc]), ih,
        dropWhile_cons_of_pos hc]
    · rw [dropWhile_cons_of_neg hc, if_neg (cons_ne_nil c l),
        scan_next (show reqStep token .req0 c = .inl (.method (methMove [] c)) by
          rw [reqStep, if_neg hc])]
      exact (scan_next rfl).symm

theorem rareMethods_length : ∀ x ∈ rareMethods, ∀ y ∈ x.2, y.1.length ≤ 5 := by
  decide +kernel

variable {p : List UInt8}

lemma fastMethod_le (h : fastMethod p = .inl (st, n)) : n ≤ 9 := by
  unfold fastMethod rareMethod at h
  split at h
  · cases h
  · split at h
    · cases h
      decide
    · split at h
      · split at h
        · cases h
        · cases h
          decide
      · split at h
        · cases h
        · split at h
          · rename_i word tails hword
            have hmem := mem_of_find?_eq_some hword
            split at h
            · rename_i tail method htail
              have := rareMethods_length _ hmem _ (mem_of_find?_eq_some htail)
              cases h
              dsimp only at this
              omega
            · cases h
              decide
          · cases h
            decide

lemma fastRead_append_cases (hp : 9 ≤ p.length) :
    (∃ r, ∀ l, fastRead token (p ++ l) = .inr r) ∨
      ∃ st l₀, ∀ l, fastRead token (p ++ l) = scan (reqStep token) (.method st) (l₀ ++ l) := by
  have htake : ∀ l, (p ++ l).take 9 = p.take 9 := fun l => take_append_of_le_length hp
  cases hfast : fastMethod (p.take 9) with
  | inr r =>
    refine .inl ⟨r, fun l => ?_⟩
    rw [fastRead, htake, hfast]
  | inl x =>
    obtain ⟨st, n⟩ := x
    have hn := fastMethod_le hfast
    refine .inr ⟨st, p.drop n, fun l => ?_⟩
    rw [fastRead, htake, hfast, ← drop_append_of_le_length (by omega)]

lemma dropWhile_append_of_ne_nil {p : UInt8 → Bool} (h : l.dropWhile p ≠ []) :
    (l ++ l').dropWhile p = l.dropWhile p ++ l' := by
  rw [dropWhile_append]
  simp [h]

lemma parseReq_char (s : ReqState) (c : UInt8) :
    parseReq token s [c] = reqStep token s c := by
  refine Eq.trans ?_ (scan_singleton s c)
  cases s with
  | req0 =>
    have hlen : ([c].dropWhile isCrlf).length ≤ 1 := (dropWhile_sublist _).length_le
    rw [parseReq_req0, if_neg (by omega)]
  | method st => rw [parseReq, parseMethod_eq_scan]

lemma feed_cases {pieces : List (List UInt8)} (hne : ∀ d ∈ pieces, d ≠ []) :
    feed (parseReq token) .req0 pieces = scan (reqStep token) .req0 pieces.flatten ∨
      (9 ≤ (pieces.flatten.dropWhile isCrlf).length ∧
        feed (parseReq token) .req0 pieces =
          fastRead token (pieces.flatten.dropWhile isCrlf)) := by
  induction pieces with
  | nil => exact .inl rfl
  | cons d ds ih =>
    obtain ⟨-, hds⟩ := forall_mem_cons.mp hne
    by_cases hnil : d.dropWhile isCrlf = []
    · have hskip : parseReq token .req0 d = .inl .req0 := by
        rw [parseReq_req0, hnil, if_neg (by decide), scan_req0, if_pos hnil]
      have hdrop : (d ++ ds.flatten).dropWhile isCrlf = ds.flatten.dropWhile isCrlf := by
        rw [dropWhile_append, hnil]
        rfl
      rw [feed, hskip, flatten_cons, scan_req0, hdrop, ← scan_req0]
      exact ih hds
    · have hdrop : (d ++ ds.flatten).dropWhile isCrlf = d.dropWhile isCrlf ++ ds.flatten :=
        dropWhile_append_of_ne_nil hnil
      have hparse := @parseReq_req0 token d
      rw [flatten_cons, hdrop]
      by_cases hlen : 9 ≤ (d.dropWhile isCrlf).length
      · rw [if_pos hlen] at hparse
        refine .inr ⟨by rw [length_append]; omega, ?_⟩
        obtain ⟨r, hfast⟩ | ⟨st, l₀, hfast⟩ := @fastRead_append_cases token _ hlen
        · have hd := hfast []
          rw [append_nil] at hd
          rw [feed, hparse, hd, hfast]
        · have hd := hfast []
          rw [append_nil, append_nil] at hd
          rw [feed_cons_of_method hds (hparse.trans hd), hfast]
      · rw [if_neg hlen, scan_req0, if_neg hnil] at hparse
        left
        rw [feed_cons_of_method hds hparse, scan_req0, hdrop, if_neg (by simp [hnil])]

variable {q : List UInt8}

lemma reqStep_meth (h : move methods q (id c) = .part) :
    reqStep token (.method (.meth q)) c = .inl (.method (.meth (q ++ [id c]))) := by
  show Sum.inl (ReqState.method (methMove q c)) = _
  rw [id] at h
  rw [methMove, h]
  rfl

lemma scan_method_part (h : Part methods q) (l : List UInt8) :
    scan (reqStep token) (.method (.meth [])) (q ++ l) =
      scan (reqStep token) (.method (.meth q)) l := by
  have hq : Part methods ([] ++ q.map id) := by simpa using h
  have hscan := scan_part methods_prefixFree (fun _ _ => @reqStep_meth token _ _) q l hq
  rwa [map_id, nil_append] at hscan

lemma methods_ne_nil : ∀ x ∈ methods, x.1 ≠ [] := by
  decide +kernel

lemma scan_method_whole (h : (q, m) ∈ methods) (l : List UInt8) :
    scan (reqStep token) (.method (.meth [])) (q ++ l) =
      scan (reqStep token) (.method (.muSpace m)) l := by
  have hq : ([] ++ q.map id, m) ∈ methods := by simpa using h
  obtain ⟨q', c, hmove, hscan⟩ := scan_whole methods_prefixFree
    (fun _ _ => @reqStep_meth token _ _) (methods_ne_nil _ h) hq l
  rw [hscan]
  refine scan_next ?_
  show Sum.inl (ReqState.method (methMove q' c)) = _
  rw [id] at hmove
  rw [methMove, hmove]

lemma scan_method_leave (hq : Part methods q) (hc : ¬ Begins methods (q ++ [c])) :
    scan (reqStep token) (.method (.meth [])) (q ++ c :: l) =
      scan (reqStep token) (.method .methodUnknown) l := by
  rw [scan_method_part hq]
  refine scan_next ?_
  show Sum.inl (ReqState.method (methMove q c)) = _
  rw [methMove, move_of_not_begins hc]

/-- The words that `Req_Method` compares with -/
def words : List (List UInt8) :=
  [ofAscii "GET ", ofAscii "POST", ofAscii "OPTI", ofAscii "PUT "] ++ rareMethods.map Prod.fst

lemma fastMethod_of_not_mem (h : p.take 4 ∉ words) :
    fastMethod p = .inl (.methodUnknown, 1) := by
  simp only [words, cons_append, nil_append, mem_cons, not_or] at h
  obtain ⟨hget, hpost, hopti, hput, hrare⟩ := h
  have hnone : (rareMethods.find? fun x => x.1 == p.take 4) = none := by
    rw [find?_eq_none]
    intro x hx heq
    apply hrare
    rw [← (beq_iff_eq.mp heq)]
    exact mem_map_of_mem hx
  rw [fastMethod, if_neg hget, if_neg hpost, rareMethod, if_neg hopti, if_neg hput, hnone]

lemma rareMethods_spec : ∀ x ∈ rareMethods,
    (∀ y ∈ x.2, (x.1 ++ y.1, y.2) ∈ methods) ∧
      ((∃ y ∈ x.2, y.1 = []) ∨ Part methods x.1) := by
  decide +kernel

lemma rareMethods_words : ∀ x ∈ rareMethods,
    x.1 ∉ [ofAscii "GET ", ofAscii "POST", ofAscii "OPTI", ofAscii "PUT "] := by
  decide +kernel

lemma fastMethod_of_rare (h : (rareMethods.find? fun x => x.1 == p.take 4) = some x) :
    fastMethod p =
      match x.2.find? fun y => y.1.isPrefixOf (p.drop 4) with
      | some (tail, method) => .inl (.muSpace method, 4 + tail.length)
      | none => .inl (.meth x.1, 4) := by
  have hword : x.1 = p.take 4 := by simpa using find?_some h
  have hother := rareMethods_words x (mem_of_find?_eq_some h)
  rw [hword] at hother
  simp only [mem_cons, not_or] at hother
  obtain ⟨hget, hpost, hopti, hput, -⟩ := hother
  rw [fastMethod, if_neg hget, if_neg hpost, rareMethod, if_neg hopti, if_neg hput, h]

lemma fastRead_of_inl (h : fastMethod (w.take 9) = .inl (st, n)) :
    fastRead token w = scan (reqStep token) (.method st) (w.drop n) := by
  rw [fastRead, h]

variable {r : MethodRet}

lemma fastRead_of_inr (h : fastMethod (w.take 9) = .inr r) : fastRead token w = .inr r := by
  rw [fastRead, h]

lemma scan_accept (hmem : (name, m) ∈ methods) (hw : w = name ++ 0x20 :: l) :
    scan (reqStep token) (.method (.meth [])) w = .inr (.accepted m) := by
  rw [hw, scan_method_whole hmem]
  exact scan_stop rfl

lemma fastRead_of_rare (h : w.take 4 ∈ rareMethods.map Prod.fst) :
    fastRead token w = scan (reqStep token) (.method (.meth [])) w := by
  have htake : (w.take 9).take 4 = w.take 4 := by rw [take_take]; rfl
  cases hfind : rareMethods.find? fun x => x.1 == (w.take 9).take 4 with
  | none =>
    rw [htake] at hfind
    obtain ⟨x, hx, heq⟩ := mem_map.mp h
    exact absurd (beq_iff_eq.mpr heq) (find?_eq_none.mp hfind x hx)
  | some x =>
    have hmem := mem_of_find?_eq_some hfind
    have hword : x.1 = w.take 4 := by
      rw [← htake]
      simpa using find?_some hfind
    have hw : w = x.1 ++ w.drop 4 := by rw [hword, take_append_drop]
    have hfast := fastMethod_of_rare hfind
    obtain ⟨hmethods, hpart⟩ := rareMethods_spec x hmem
    cases htail : x.2.find? fun y => y.1.isPrefixOf ((w.take 9).drop 4) with
    | some y =>
      rw [htail] at hfast
      rw [fastRead_of_inl hfast]
      have hle : y.1 <+: w.drop 4 := by
        have hpre : y.1 <+: (w.take 9).drop 4 := by simpa using find?_some htail
        rw [drop_take] at hpre
        exact hpre.trans ( take_prefix _ _)
      obtain ⟨l, hl⟩ := hle
      have hdrop : w.drop (4 + y.1.length) = l := by
        rw [← drop_drop, ← hl, drop_left]
      conv_rhs => rw [hw, ← hl, ← append_assoc]
      rw [hdrop, scan_method_whole (hmethods y (mem_of_find?_eq_some htail))]
    | none =>
      rw [htail] at hfast
      rw [fastRead_of_inl hfast]
      conv_rhs => rw [hw]
      obtain ⟨y, hy, hnil⟩ | hpart := hpart
      · have := find?_eq_none.mp htail y hy
        rw [hnil] at this
        simp at this
      · exact (scan_method_part hpart _).symm

lemma fastRead_of_mem (h : w.take 4 ∈ words) :
    fastRead token w = scan (reqStep token) (.method (.meth [])) w := by
  have htake : (w.take 9).take 4 = w.take 4 := by rw [take_take]; rfl
  have hdrop : ((w.take 9).drop 4).take 4 = (w.drop 4).take 4 := by
    rw [drop_take, take_take]
    rfl
  have hsplit : ∀ {word}, w.take 4 = word → w = word ++ w.drop 4 := by
    rintro _ rfl
    exact (take_append_drop 4 w).symm
  simp only [words, cons_append, nil_append, mem_cons] at h
  obtain h | h | h | h | h := h
  · have hfast : fastMethod (w.take 9) = .inr (.accepted .get) := by
      rw [fastMethod, htake, if_pos h]
    have hw : w = ofAscii "GET" ++ 0x20 :: w.drop 4 := hsplit h
    rw [fastRead_of_inr hfast]
    exact (scan_accept (by decide +kernel) hw).symm
  · have hfast : fastMethod (w.take 9) = .inl (.muSpace .post, 4) := by
      rw [fastMethod, htake, h, if_neg (by decide), if_pos rfl]
    rw [fastRead_of_inl hfast]
    conv_rhs => rw [hsplit h]
    exact (scan_method_whole (by decide +kernel) _).symm
  · have hfast : fastMethod (w.take 9) =
        if (w.drop 4).take 4 = ofAscii "ONS " then .inr (.accepted .options)
        else .inl (.meth (ofAscii "OPTI"), 4) := by
      rw [fastMethod, htake, h, if_neg (by decide), if_neg (by decide), rareMethod, htake, h,
        if_pos rfl, hdrop]
    split at hfast
    · rename_i hons
      rw [fastRead_of_inr hfast]
      have hw : w = ofAscii "OPTIONS" ++ 0x20 :: (w.drop 4).drop 4 := by
        conv_lhs => rw [hsplit h, ← take_append_drop 4 (w.drop 4), hons]
        rfl
      exact (scan_accept (by decide +kernel) hw).symm
    · rw [fastRead_of_inl hfast]
      conv_rhs => rw [hsplit h]
      exact (scan_method_part (by decide +kernel) _).symm
  · have hfast : fastMethod (w.take 9) = .inr (.accepted .put) := by
      rw [fastMethod, htake, h, if_neg (by decide), if_neg (by decide), rareMethod, htake, h,
        if_neg (by decide), if_pos rfl]
    have hw : w = ofAscii "PUT" ++ 0x20 :: w.drop 4 := hsplit h
    rw [fastRead_of_inr hfast]
    exact (scan_accept (by decide +kernel) hw).symm
  · exact fastRead_of_rare h

def tokenEnd (token : UInt8 → Bool) (l : List UInt8) : Option UInt8 := (l.dropWhile token).head?

/-- Two tokens end at a space, at other characters, or not at all. -/
def SameEnd (a b : Option UInt8) : Prop := a.map (· == 0x20) = b.map (· == 0x20)

/-- Where the characters leave the chains of the methods within four characters: behind a
part of a method, the token that follows ends as the one from the second character on does;
behind a whole method there is a space, or the token from the second character on ends at
another character. -/
def MethodClear (token : UInt8 → Bool) (w : List UInt8) : Prop :=
  ∀ q c l, w = q ++ c :: l → q ≠ [] → q.length ≤ 3 → Begins methods q →
    ¬ Begins methods (q ++ [c]) →
    if Part methods q then SameEnd (tokenEnd token w.tail) (tokenEnd token l)
    else c = 0x20 ∨ ∃ d, tokenEnd token w.tail = some d ∧ d ≠ 0x20

lemma muSpaceStep_inj {a b : UInt8} :
    muSpaceStep m a = muSpaceStep m b ↔ (a == 0x20) = (b == 0x20) := by
  unfold muSpaceStep
  by_cases ha : a = 0x20 <;> by_cases hb : b = 0x20 <;> simp [ha, hb]

lemma verdict_methodUnknown :
    methodVerdict (scan (reqStep token) (.method .methodUnknown) l) =
      (tokenEnd token l).map (muSpaceStep .unknown) := by
  rw [scan_methodUnknown, tokenEnd]
  cases l.dropWhile token <;> rfl

lemma sameEnd_iff : a.map (muSpaceStep m) = b.map (muSpaceStep m) ↔ SameEnd a b := by
  unfold SameEnd
  cases a <;> cases b <;> simp [muSpaceStep_inj]

lemma methodClear_iff (hw : w = q ++ c :: l) (hq : q ≠ []) (hlen : q.length ≤ 3)
    (hb : Begins methods q) (hc : ¬ Begins methods (q ++ [c])) :
    MethodClear token w ↔
      if Part methods q then SameEnd (tokenEnd token w.tail) (tokenEnd token l)
      else c = 0x20 ∨ ∃ d, tokenEnd token w.tail = some d ∧ d ≠ 0x20 := by
  constructor
  · intro h
    exact h q c l hw hq hlen hb hc
  · intro h q' c' l' hw' _ _ hb' hc'
    obtain ⟨rfl, rfl, rfl⟩ := leave_unique (hw.symm.trans hw') hb hb' hc hc'
    exact h

lemma words_begin : ∀ word ∈ words, ∀ k < 4, Begins methods (word.take (k + 1)) ∨
    (¬ Part methods (word.take k) ∧ word.take (k + 1) = word.take k ++ [0x20]) := by
  decide +kernel

lemma methodClear_of_mem (h : w.take 4 ∈ words) : MethodClear token w := by
  intro q c l hw _ hlen _ hc
  have hq : (w.take 4).take q.length = q := by
    rw [take_take, Nat.min_eq_left (by omega), hw, take_left]
  have hqc : (w.take 4).take (q.length + 1) = q ++ [c] := by
    rw [take_take, Nat.min_eq_left (by omega), hw, take_append]
    simp
  have hword := words_begin _ h q.length (by omega)
  rw [hq, hqc] at hword
  obtain hb | ⟨hpart, heq⟩ := hword
  · exact absurd hb hc
  · rw [if_neg hpart]
    left
    simpa using heq

lemma methods_words : ∀ x ∈ methods,
    x.1.length ≤ 9 ∧ (4 ≤ x.1.length → x.1.take 4 ∈ words) ∧
      (x.1.length < 4 → x.1.length = 3 ∧ x.1 ++ [0x20] ∈ words) := by
  decide +kernel

lemma length_le_of_not_mem (hq : q <+: w) (hb : Begins methods q) (h : w.take 4 ∉ words) :
    q.length ≤ 3 := by
  by_contra hlen
  obtain ⟨x, hx, hle⟩ := hb
  have htake : w.take 4 = x.1.take 4 := by
    obtain ⟨l, rfl⟩ := hq
    obtain ⟨l', hl'⟩ := hle
    rw [← hl', take_append_of_le_length (by omega), take_append_of_le_length (by omega)]
  have := hle.length_le
  exact h (htake ▸ (methods_words x hx).2.1 (by omega))

/-- Read by words and by characters, a stream gets one verdict exactly where the method is
clear. -/
theorem fastRead_verdict_iff (hlen : 9 ≤ w.length) :
    methodVerdict (fastRead token w) =
        methodVerdict (scan (reqStep token) (.method (.meth [])) w) ↔
      MethodClear token w := by
  by_cases hmem : w.take 4 ∈ words
  · exact iff_of_true (by rw [fastRead_of_mem hmem]) (methodClear_of_mem hmem)
  have hfast : fastMethod (w.take 9) = .inl (.methodUnknown, 1) := by
    apply fastMethod_of_not_mem
    rwa [take_take]
  rw [fastRead_of_inl hfast, verdict_methodUnknown, drop_one]
  have hsplit := split_cases id part_nil w
  simp only [map_id, id] at hsplit
  obtain ⟨x, hx, hle, hne⟩ | ⟨q, c, l, hw, hq, hc⟩ | ⟨q, m, l, hw, hm⟩ := hsplit
  · have hle9 := (methods_words x hx).1
    exact absurd (hle.eq_of_length_le (by omega)) hne
  · have hscan : scan (reqStep token) (.method (.meth [])) w =
        scan (reqStep token) (.method .methodUnknown) l := by
      rw [hw, scan_method_leave hq hc]
    rw [hscan, verdict_methodUnknown, sameEnd_iff]
    by_cases hnil : q = []
    · subst hnil
      refine iff_of_true (by rw [hw]; rfl) ?_
      intro q' c' l' hw' hne _ hb' hc'
      exact absurd (leave_unique (hw.symm.trans hw') hq.begins hb' hc hc').1.symm hne
    · have hshort := length_le_of_not_mem ⟨c :: l, hw.symm⟩ hq.begins hmem
      rw [methodClear_iff hw hnil hshort hq.begins hc, if_pos hq]
  · have hshort := length_le_of_not_mem ⟨l, hw.symm⟩ ⟨_, hm, prefix_rfl⟩ hmem
    have hthree : q.length = 3 ∧ q ++ [0x20] ∈ words := (methods_words _ hm).2.2 (by dsimp; omega)
    obtain ⟨c, l, rfl⟩ : ∃ c l', l = c :: l' := by
      apply exists_cons_of_ne_nil
      rintro rfl
      rw [hw, length_append, length_nil] at hlen
      omega
    have hspace : c ≠ 0x20 := by
      rintro rfl
      apply hmem
      rw [hw, append_cons, take_left' (by simp [hthree.1])]
      exact hthree.2
    have hscan : scan (reqStep token) (.method (.meth [])) w = .inr .blocked := by
      rw [hw, scan_method_whole hm]
      refine scan_stop ?_
      show Sum.inr (muSpaceStep m c) = _
      rw [muSpaceStep, if_neg hspace]
    obtain ⟨hpart, hc⟩ := not_begins_of_mem methods_prefixFree hm c
    have hne : q ≠ [] := methods_ne_nil _ hm
    rw [methodClear_iff hw hne hshort ⟨_, hm, prefix_rfl⟩ hc, if_neg hpart, hscan]
    show (tokenEnd token w.tail).map (muSpaceStep .unknown) = some .blocked ↔ _
    cases tokenEnd token w.tail with
    | none => simp [hspace]
    | some d => by_cases hd : d = 0x20 <;> simp [muSpaceStep, hd, hspace]

/-- The verdict on the method is free of the segmentation exactly where the stream is too
short for the words, or the method is clear. -/
theorem segmentationFree_iff (token : UInt8 → Bool) (stream : List UInt8) :
    SegmentationFree token stream ↔
      (stream.dropWhile isCrlf).length < 9 ∨ MethodClear token (stream.dropWhile isCrlf) := by
  have hwhole : feed (parseReq token) .req0 [stream] =
      if 9 ≤ (stream.dropWhile isCrlf).length then fastRead token (stream.dropWhile isCrlf)
      else scan (reqStep token) .req0 stream := by
    rw [← parseReq_req0, feed]
    cases parseReq token .req0 stream <;> rfl
  by_cases hlen : 9 ≤ (stream.dropWhile isCrlf).length
  · have hne : stream.dropWhile isCrlf ≠ [] := by
      intro hnil
      rw [hnil] at hlen
      simp at hlen
    have hslow : scan (reqStep token) .req0 stream =
        scan (reqStep token) (.method (.meth [])) (stream.dropWhile isCrlf) := by
      rw [scan_req0, if_neg hne]
    rw [or_iff_right (Nat.not_lt.mpr hlen), ← fastRead_verdict_iff hlen]
    rw [if_pos hlen] at hwhole
    constructor
    · intro h
      have hchars := h (stream.map fun c => [c]) (by simp) (flatten_singletons stream)
      rw [hwhole, feed_singletons parseReq_char, hslow] at hchars
      exact hchars.symm
    · intro h pieces hpieces hflat
      rw [hwhole]
      obtain hfeed | ⟨-, hfeed⟩ := @feed_cases token _ hpieces
      · rw [hfeed, hflat, hslow, h]
      · rw [hfeed, hflat]
  · refine iff_of_true ?_ (.inl (by omega))
    intro pieces hpieces hflat
    rw [hwhole, if_neg hlen]
    obtain hfeed | ⟨hlong, -⟩ := @feed_cases token _ hpieces
    · rw [hfeed, hflat]
    · rw [hflat] at hlong
      exact absurd hlong hlen

/-- In one buffer the letter and the space are an unknown method; when the letter comes
first, the space is skipped and the path is no token. -/
theorem cut_behind_letter :
    ¬ SegmentationFree (Str.builtinTable .token) (ofAscii "G /index.html HTTP/1.1") := by
  intro h
  have hcut := h [ofAscii "G", ofAscii " /index.html HTTP/1.1"] (by decide +kernel)
    (by decide +kernel)
  revert hcut
  decide +kernel

end slow

end Tempesta.Http.ReqLine
