import Tempesta.Ctype
import Tempesta.Sess.Obtain

/-!
The request target: how it is read from the request line, and what of it is sent to a
backend. The part before the path and the redirection mark are not read with the
alphabet of URIs.
-/

namespace Tempesta.Uri

open List ScanLib Ctype Str
open Http (tfwLc)

def isPlain (c : UInt8) : Bool := c < 0x80 && (isAlnum c || c ∈ ofAscii ".-@:[]/_=")

/-- The alphabet of URIs, built in or configured -/
structure UriAlphabet where
  mem : ByteSet
  plain : ∀ c, isPlain c = true → mem c = true

def redirMarkEq : List UInt8 := ofAscii "__tfw="

/-- `tfw_http_sess_mark_size` -/
def markSize : Nat := Sess.redirMarkValSize * 2

/-- The states of the parser in the target, with those of `__parse_uri_mark` -/
inductive St where
  | uri
  | sch (n : Nat)
  | authorityStart
  | authority
  | authorityIPv6
  | authorityResetHost
  | authorityEnd
  | port
  | markName (off : Nat)
  | markValue (toRead : Nat)
  | markEnd
  | absPath
  deriving DecidableEq, Repr

/-- The parser and what it read: `front` are the bytes before the mark and the path. -/
structure Target where
  st : St := .uri
  userinfo : Bool := false
  front : List UInt8 := []
  mark : List UInt8 := []
  uriPath : List UInt8 := []
  deriving DecidableEq, Repr

/-- The end of the target: an error, or the space before the version -/
inductive Stop where
  | block
  | done (t : Target)
  deriving DecidableEq, Repr

section step

variable (uri : UriAlphabet) (redirMark : Bool)

/-- `Req_UriMark` at its slash -/
def Target.openPath (t : Target) : Target :=
  if redirMark then { t with st := .markName 0, mark := [0x2f] }
  else { t with st := .absPath, uriPath := [0x2f] }

def Target.move (t : Target) (st : St) (c : UInt8) :
    Target := { t with st, front := t.front ++ [c] }

/-- `Req_UriAuthorityEnd` -/
def Target.authorityEnd (t : Target) (c : UInt8) : Target ⊕ Stop :=
  if c = 0x3a then .inl (t.move .port c)
  else if c = 0x2f then .inl (t.openPath redirMark)
  else if c = 0x20 then .inr (.done t)
  else .inr .block

/-- `Req_UriAbsPath` on one byte -/
def Target.absPath (t : Target) (c : UInt8) : Target ⊕ Stop :=
  if c = 0x20 then .inr (.done t)
  else if uri.mem c then .inl { t with st := .absPath, uriPath := t.uriPath ++ [c] }
  else .inr .block

def Target.step (t : Target) (c : UInt8) : Target ⊕ Stop :=
  match t.st with
  | .uri =>
    if c = 0x2f then .inl (t.openPath redirMark)
    else if tfwLc c = 0x68 then .inl (t.move (.sch 1) c)
    else .inr .block
  | .sch n =>
    if (ofAscii "http://")[n]? = some (if n < 4 then tfwLc c else c) then
      .inl (t.move (if n = 6 then .authorityStart else .sch (n + 1)) c)
    else .inr .block
  | .authorityStart =>
    if isAlnum c ∨ c = 0x2e ∨ c = 0x2d then .inl (t.move .authority c)
    else if c = 0x2f then .inl (t.openPath redirMark)
    else if c = 0x5b then .inl (t.move .authorityIPv6 c)
    else .inr .block
  | .authority =>
    if isAlnum c ∨ c = 0x2e ∨ c = 0x2d then .inl (t.move .authority c)
    else if c = 0x40 then
      if t.userinfo then .inr .block
      else .inl { t.move .authorityResetHost c with userinfo := true }
    else t.authorityEnd redirMark c
  | .authorityIPv6 =>
    if isXdigit c ∨ c = 0x3a then .inl (t.move .authorityIPv6 c)
    else if c = 0x5d then .inl (t.move .authorityEnd c)
    else .inr .block
  | .authorityResetHost =>
    if isAlnum c ∨ c = 0x2e ∨ c = 0x2d then .inl (t.move .authority c)
    else if c = 0x5b then .inl (t.move .authorityIPv6 c)
    else t.authorityEnd redirMark c
  | .authorityEnd => t.authorityEnd redirMark c
  | .port =>
    if isDigit c then .inl (t.move .port c)
    else if c = 0x2f then .inl (t.openPath redirMark)
    else if c = 0x20 then .inr (.done t)
    else .inr .block
  | .markName off =>
    if redirMarkEq[off]? = some (tfwLc c) then
      .inl { t with
        st := if off + 1 = redirMarkEq.length then .markValue markSize else .markName (off + 1)
        mark := t.mark ++ [c] }
    else { t with st := .absPath, uriPath := t.mark, mark := [] }.absPath uri c
  | .markValue toRead =>
    .inl { t with
      st := if toRead = 1 then .markEnd else .markValue (toRead - 1)
      mark := t.mark ++ [c] }
  | .markEnd =>
    if c = 0x2f then .inl { t with st := .absPath, uriPath := [c] }
    else if c = 0x20 then .inr (.done t)
    else .inr .block
  | .absPath => t.absPath uri c

end step

/-- `tfw_http_parse_req` from `Req_Uri` to `Req_HttpVer` on pieces of data. The scheme and
the name of the mark may be compared by more than one byte at a time, with the same outcome. -/
def parseTarget (uri : UriAlphabet) (redirMark : Bool) (segs : List (List UInt8)) : Target ⊕ Stop :=
  feed (scan (Target.step uri redirMark)) {} segs

/-- The target behind `tfw_http_sess_req_process`, which removes the mark -/
def Target.adjusted (t : Target) (vh : Sess.Vhost) : List UInt8 :=
  if vh.cookie.maxMisses = 0 ∨ t.mark = [] then t.front ++ t.mark ++ t.uriPath
  else t.front ++ t.uriPath

/-- `req->mark`: the slash, the name and the value -/
def Target.markChunks (t : Target) : List Sess.FlagChunk :=
  if t.mark = [] then []
  else [⟨t.mark.take 1, .plain⟩, ⟨(t.mark.drop 1).take redirMarkEq.length, .plain⟩,
    ⟨t.mark.drop (1 + redirMarkEq.length), .value⟩]

/-- The target that a backend gets, if `tfw_http_sess_obtain` lets the request pass and its
virtual host is known -/
def forwarded (w : Sess.World) (req : Sess.Req) (t : Target) : Option (List UInt8) :=
  match Sess.sessObtain w { req with mark := t.markChunks }, req.vhost with
  | .ok (.success, _), some vh => some (t.adjusted vh)
  | _, _ => none

def Target.bytes (t : Target) : List UInt8 := t.front ++ t.mark ++ t.uriPath

def St.isAuthority : St → Bool
  | .authorityStart | .authority | .authorityIPv6 | .authorityResetHost | .authorityEnd |
    .port => true
  | _ => false

/-- A scheme and an authority -/
structure Authority (f : List UInt8) : Prop where
  len : 7 ≤ f.length
  head : f.head? ≠ some 0x2f
  tail : 0x2f ∉ f.drop 7

def IsName (m : List UInt8) : Prop := m.map tfwLc = redirMarkEq

/-- The path `p` behind its slash differs from a mark. -/
def NoName (p : List UInt8) : Prop := ∃ k c, k < redirMarkEq.length ∧ p[k]? = some c ∧
  redirMarkEq[k]? ≠ some (tfwLc c)

section reached

variable (uri : UriAlphabet) (redirMark : Bool)

/-- The states that a target leads to -/
inductive Reached : Target → Prop
  | uri : Reached {}
  | sch {n f} (hn : 0 < n) (hn6 : n ≤ 6) (hlen : f.length = n) (hf : f.head? ≠ some 0x2f) :
      Reached ⟨.sch n, false, f, [], []⟩
  | authority {st u f} (hst : st.isAuthority = true) (hf : Authority f) :
      Reached ⟨st, u, f, [], []⟩
  | markName {u f m} (hr : redirMark = true) (hf : f = [] ∨ Authority f)
      (hm : m.map tfwLc = redirMarkEq.take m.length) (hlen : m.length < redirMarkEq.length) :
      Reached ⟨.markName m.length, u, f, 0x2f :: m, []⟩
  | markValue {u f m v r} (hr : redirMark = true) (hf : f = [] ∨ Authority f) (hm : IsName m)
      (hv : v.length + r = markSize) (hpos : 0 < r) :
      Reached ⟨.markValue r, u, f, 0x2f :: (m ++ v), []⟩
  | markEnd {u f m v} (hr : redirMark = true) (hf : f = [] ∨ Authority f) (hm : IsName m)
      (hv : v.length = markSize) : Reached ⟨.markEnd, u, f, 0x2f :: (m ++ v), []⟩
  | absPath {u f p} (hf : f = [] ∨ Authority f) (hp : ∀ c ∈ p, uri.mem c = true)
      (hno : redirMark = true → NoName p) : Reached ⟨.absPath, u, f, [], 0x2f :: p⟩
  | markedPath {u f m v p} (hr : redirMark = true) (hf : f = [] ∨ Authority f) (hm : IsName m)
      (hv : v.length = markSize) (hp : ∀ c ∈ p, uri.mem c = true) :
      Reached ⟨.absPath, u, f, 0x2f :: (m ++ v), 0x2f :: p⟩

end reached

variable {t t' : Target} {c : UInt8} {f l m rest : List UInt8} {u redirMark : Bool}
  {P : UInt8 → Prop} {k : Nat} {vh : Sess.Vhost} {uri : UriAlphabet}

lemma NoName.append {p : List UInt8} (h : NoName p) (c : UInt8) : NoName (p ++ [c]) := by
  obtain ⟨k, b, hk, hb, hne⟩ := h
  obtain ⟨hlt, -⟩ := List.getElem?_eq_some_iff.mp hb
  exact ⟨k, b, hk, by rw [getElem?_append_left hlt, hb], hne⟩

lemma Authority.append (h : Authority f) (hc : c ≠ 0x2f) :
    Authority (f ++ [c]) where
  len := by
    have := h.len
    rw [length_append]
    omega
  head := by
    rw [head?_append_of_ne_nil _ (fun e => by have := h.len; rw [e] at this; cases this)]
    exact h.head
  tail := by
    rw [drop_append_of_le_length h.len, mem_append, mem_singleton]
    rintro (hmem | rfl)
    · exact h.tail hmem
    · exact hc rfl

lemma reached_openPath {st : St} (hf : f = [] ∨ Authority f) :
    Reached uri redirMark (Target.openPath redirMark ⟨st, u, f, [], []⟩) := by
  cases redirMark with
  | true => exact .markName (m := []) rfl hf rfl (by decide)
  | false => exact .absPath hf nofun nofun

lemma bytes_openPath {st : St} :
    (Target.openPath redirMark ⟨st, u, f, [], []⟩).bytes = f ++ [0x2f] := by
  cases redirMark with
  | true => simp [Target.openPath, Target.bytes]
  | false => simp [Target.openPath, Target.bytes]

/-- What a byte does before the path: one more byte of the front, its end at a slash, or
that of the target at a space -/
inductive FrontStep (redirMark : Bool) (t : Target) (c : UInt8) : Target ⊕ Stop → Prop
  | move {st u} (hst : st.isAuthority = true) (hc : c ≠ 0x2f) :
      FrontStep redirMark t c (.inl { t.move st c with userinfo := u })
  | path (hc : c = 0x2f) : FrontStep redirMark t c (.inl (t.openPath redirMark))
  | done (hc : c = 0x20) : FrontStep redirMark t c (.inr (.done t))
  | block : FrontStep redirMark t c (.inr .block)

lemma hostChar_ne_slash (h : isAlnum c = true ∨ c = 0x2e ∨ c = 0x2d) : c ≠ 0x2f := by
  rintro rfl
  revert h
  decide

lemma authorityEnd_frontStep : FrontStep redirMark t c (t.authorityEnd redirMark c) := by
  rw [Target.authorityEnd]
  split
  next hc => exact .move rfl (by rw [hc]; decide)
  split
  next hc => exact .path hc
  split
  next hc => exact .done hc
  next => exact .block

lemma authority_frontStep (ht : t.st.isAuthority = true) :
    FrontStep redirMark t c (t.step uri redirMark c) := by
  rw [Target.step]
  cases hst : t.st with
  | uri | sch _ | markName _ | markValue _ | markEnd | absPath =>
    rw [hst] at ht
    cases ht
  | authorityStart =>
    dsimp only
    split
    next hc => exact .move rfl (hostChar_ne_slash hc)
    split
    next hc => exact .path hc
    split
    next hc => exact .move rfl (by rw [hc]; decide)
    next => exact .block
  | authority =>
    dsimp only
    split
    next hc => exact .move rfl (hostChar_ne_slash hc)
    split
    next hc =>
      split
      next => exact .block
      next => exact .move rfl (by rw [hc]; decide)
    next => exact authorityEnd_frontStep
  | authorityIPv6 =>
    dsimp only
    split
    next hc =>
      refine .move rfl ?_
      rintro rfl
      revert hc
      decide
    split
    next hc => exact .move rfl (by rw [hc]; decide)
    next => exact .block
  | authorityResetHost =>
    dsimp only
    split
    next hc => exact .move rfl (hostChar_ne_slash hc)
    split
    next hc => exact .move rfl (by rw [hc]; decide)
    next => exact authorityEnd_frontStep
  | authorityEnd => exact authorityEnd_frontStep
  | port =>
    dsimp only
    split
    next hc =>
      refine .move rfl ?_
      rintro rfl
      revert hc
      decide
    split
    next hc => exact .path hc
    split
    next hc => exact .done hc
    next => exact .block

lemma step_absPath (ht : t.st = .absPath) : t.step uri redirMark c = t.absPath uri c := by
  rw [Target.step, ht]

lemma absPath_inl (h : t.absPath uri c = .inl t') :
    uri.mem c = true ∧ t' = { t with st := .absPath, uriPath := t.uriPath ++ [c] } := by
  rw [Target.absPath] at h
  split at h
  next => cases h
  split at h
  next hc =>
    cases h
    exact ⟨hc, rfl⟩
  next => cases h

lemma forall_mem_concat (hl : ∀ b ∈ l, P b) (hc : P c) : ∀ b ∈ l ++ [c], P b := by
  intro b hb
  rcases mem_append.mp hb with hb | hb
  · exact hl b hb
  · rw [mem_singleton.mp hb]
    exact hc

/-- How a target ends -/
inductive Finished (uri : UriAlphabet) (redirMark : Bool) (t : Target) : Prop
  | front (hf : Authority t.front) (hm : t.mark = []) (hp : t.uriPath = [])
  | path {p} (hf : t.front = [] ∨ Authority t.front) (hm : t.mark = []) (ht : t.uriPath = 0x2f :: p)
      (hp : ∀ c ∈ p, uri.mem c = true) (hno : redirMark = true →
        ¬ IsName (p.take redirMarkEq.length))
  | mark {m v} (hr : redirMark = true) (hf : t.front = [] ∨ Authority t.front) (hm : IsName m)
      (hv : v.length = markSize) (ht : t.mark = 0x2f :: (m ++ v))
      (hp : ∀ c ∈ t.uriPath, uri.mem c = true)
      (hp0 : t.uriPath = [] ∨ t.uriPath.head? = some 0x2f)

lemma isPlain_of_tfwLc : ∀ c : UInt8, isPlain (tfwLc c) = true → isPlain c = true :=
  forall_byte (by decide +kernel)

lemma mem_of_tfwLc (h : tfwLc c ∈ redirMarkEq) : uri.mem c = true := by
  have hplain : ∀ b ∈ redirMarkEq, isPlain b = true := by decide +kernel
  exact uri.plain c (isPlain_of_tfwLc c (hplain _ h))

lemma mem_of_name (h : m.map tfwLc = redirMarkEq.take k) : ∀ b ∈ m, uri.mem b = true := by
  intro b hb
  have hmem : tfwLc b ∈ redirMarkEq.take k := h ▸ mem_map_of_mem hb
  exact mem_of_tfwLc (mem_of_mem_take hmem)

lemma reached_step (h : Reached uri redirMark t) (hs : t.step uri redirMark c = .inl t') :
    Reached uri redirMark t' ∧ t'.bytes = t.bytes ++ [c] := by
  cases h with
  | uri =>
    rw [Target.step] at hs
    dsimp only at hs
    split at hs
    next hc =>
      cases hs
      exact ⟨reached_openPath (.inl rfl), by rw [bytes_openPath, hc]; rfl⟩
    next hc =>
      split at hs
      next =>
        cases hs
        exact ⟨.sch (by decide) (by decide) rfl (fun e => hc (Option.some.inj e)), rfl⟩
      next => cases hs
  | @sch n f hn hn6 hlen hf =>
    rw [Target.step] at hs
    dsimp only at hs
    by_cases hcmp : (ofAscii "http://")[n]? = some (if n < 4 then tfwLc c else c)
    · rw [if_pos hcmp] at hs
      have hne : f ≠ [] := by
        rintro rfl
        exact absurd hlen (by simp; omega)
      have hhead : (f ++ [c]).head? ≠ some 0x2f := by
        rw [head?_append_of_ne_nil f hne]
        exact hf
      have hlen' : (f ++ [c]).length = n + 1 := by
        rw [length_append, hlen]
        rfl
      cases hs
      refine ⟨?_, by simp [Target.bytes, Target.move]⟩
      by_cases h6 : n = 6
      · have hauth : Authority (f ++ [c]) :=
          ⟨by omega, hhead, by rw [drop_eq_nil_of_le (by omega)]; nofun⟩
        rw [Target.move, if_pos h6]
        exact .authority rfl hauth
      · rw [Target.move, if_neg h6]
        exact .sch (by omega) (by omega) hlen' hhead
    · rw [if_neg hcmp] at hs
      cases hs
  | @authority st u f hst hf =>
    have hstep : FrontStep redirMark ⟨st, u, f, [], []⟩ c
        (Target.step uri redirMark ⟨st, u, f, [], []⟩ c) := authority_frontStep hst
    rw [hs] at hstep
    cases hstep with
    | move hst' hc => exact ⟨.authority hst' (hf.append hc), by simp [Target.bytes, Target.move]⟩
    | path hc => exact ⟨reached_openPath (.inr hf), by rw [bytes_openPath, hc]; simp [Target.bytes]⟩
  | @markName u f m hr hf hm hlen =>
    rw [Target.step] at hs
    dsimp only at hs
    split at hs
    next hc =>
      have hm' : (m ++ [c]).map tfwLc = redirMarkEq.take (m.length + 1) := by
        rw [map_append, hm, take_add_one, hc]
        rfl
      cases hs
      refine ⟨?_, by simp [Target.bytes]⟩
      by_cases hlast : m.length + 1 = redirMarkEq.length
      · rw [if_pos hlast]
        rw [hlast, take_length] at hm'
        have hval : Reached uri redirMark ⟨.markValue markSize, u, f,
          0x2f :: (m ++ [c] ++ []), []⟩ :=
          .markValue hr hf hm' (Nat.zero_add _) (by decide)
        rw [append_nil] at hval
        exact hval
      · rw [if_neg hlast]
        have hlen' : (m ++ [c]).length = m.length + 1 := by simp
        rw [← hlen'] at hm' hlast ⊢
        exact .markName hr hf hm' (by omega)
    next hc =>
      rw [Target.absPath] at hs
      dsimp only at hs
      split at hs
      next => cases hs
      split at hs
      next hmem =>
        cases hs
        exact ⟨.absPath hf (forall_mem_concat (mem_of_name hm) hmem) fun _ =>
          ⟨m.length, c, hlen, by simp, hc⟩, by simp [Target.bytes]⟩
      next => cases hs
  | @markValue u f m v r hr hf hm hv hpos =>
    cases hs
    refine ⟨?_, by simp [Target.bytes]⟩
    dsimp only
    by_cases h1 : r = 1
    · rw [if_pos h1]
      have hend : Reached uri redirMark ⟨.markEnd, u, f, 0x2f :: (m ++ (v ++ [c])), []⟩ :=
        .markEnd hr hf hm (by simp; omega)
      rw [← append_assoc] at hend
      exact hend
    · rw [if_neg h1]
      have hval : Reached uri redirMark
          ⟨.markValue (r - 1), u, f, 0x2f :: (m ++ (v ++ [c])), []⟩ :=
        .markValue hr hf hm (by simp; omega) (by omega)
      rw [← append_assoc] at hval
      exact hval
  | @markEnd u f m v hr hf hm hv =>
    rw [Target.step] at hs
    dsimp only at hs
    split at hs
    next hc =>
      cases hs
      rw [hc]
      exact ⟨.markedPath hr hf hm hv nofun, by simp [Target.bytes]⟩
    split at hs
    next => cases hs
    next => cases hs
  | @absPath u f p hf hp hno =>
    rw [step_absPath rfl] at hs
    obtain ⟨hmem, rfl⟩ := absPath_inl hs
    exact ⟨.absPath hf (forall_mem_concat hp hmem) fun hr => (hno hr).append c,
      by simp [Target.bytes]⟩
  | @markedPath u f m v p hr hf hm hv hp =>
    rw [step_absPath rfl] at hs
    obtain ⟨hmem, rfl⟩ := absPath_inl hs
    exact ⟨.markedPath hr hf hm hv (forall_mem_concat hp hmem), by simp [Target.bytes]⟩

lemma absPath_done (h : t.absPath uri c = .inr (.done t')) : c = 0x20 ∧ t' = t := by
  rw [Target.absPath] at h
  split at h
  next hc =>
    cases h
    exact ⟨hc, rfl⟩
  split at h
  next => cases h
  next => cases h

lemma NoName.not_isName {p : List UInt8} (h : NoName p) :
    ¬ IsName (p.take redirMarkEq.length) := by
  obtain ⟨k, c, hk, hc, hne⟩ := h
  intro hname
  have hget : ((p.take redirMarkEq.length).map tfwLc)[k]? = redirMarkEq[k]? := by rw [hname]
  rw [getElem?_map, getElem?_take_of_lt hk, hc] at hget
  exact hne hget.symm

lemma finished_step (h : Reached uri redirMark t) (hs : t.step uri redirMark c = .inr (.done t')) :
    c = 0x20 ∧ t'.bytes = t.bytes ∧ Finished uri redirMark t' := by
  cases h with
  | uri =>
    rw [Target.step] at hs
    dsimp only at hs
    split at hs
    next => cases hs
    split at hs
    next => cases hs
    next => cases hs
  | @sch n f hn hn6 hlen hf =>
    rw [Target.step] at hs
    dsimp only at hs
    by_cases hcmp : (ofAscii "http://")[n]? = some (if n < 4 then tfwLc c else c)
    · rw [if_pos hcmp] at hs
      cases hs
    · rw [if_neg hcmp] at hs
      cases hs
  | @authority st u f hst hf =>
    have hstep : FrontStep redirMark ⟨st, u, f, [], []⟩ c
        (Target.step uri redirMark ⟨st, u, f, [], []⟩ c) := authority_frontStep hst
    rw [hs] at hstep
    cases hstep with
    | done hc => exact ⟨hc, rfl, .front hf rfl rfl⟩
  | @markName u f m hr hf hm hlen =>
    rw [Target.step] at hs
    dsimp only at hs
    split at hs
    next => cases hs
    next =>
      obtain ⟨hc, rfl⟩ := absPath_done hs
      refine ⟨hc, by simp [Target.bytes], .path hf rfl rfl (mem_of_name hm) fun _ hname => ?_⟩
      have hlen' := congrArg List.length hname
      rw [length_map, length_take] at hlen'
      omega
  | @markValue u f m v r hr hf hm hv hpos => cases hs
  | @markEnd u f m v hr hf hm hv =>
    rw [Target.step] at hs
    dsimp only at hs
    split at hs
    next => cases hs
    split at hs
    next hc =>
      cases hs
      exact ⟨hc, rfl, .mark hr hf hm hv rfl nofun (.inl rfl)⟩
    next => cases hs
  | @absPath u f p hf hp hno =>
    rw [step_absPath rfl] at hs
    obtain ⟨hc, rfl⟩ := absPath_done hs
    exact ⟨hc, rfl, .path hf rfl rfl hp fun hr => (hno hr).not_isName⟩
  | @markedPath u f m v p hr hf hm hv hp =>
    rw [step_absPath rfl] at hs
    obtain ⟨hc, rfl⟩ := absPath_done hs
    refine ⟨hc, rfl, .mark hr hf hm hv rfl ?_ (.inr rfl)⟩
    exact forall_mem_cons.mpr ⟨uri.plain 0x2f (by decide), hp⟩

lemma scan_done (h : Reached uri redirMark t)
    (hs : scan (Target.step uri redirMark) t l = .inr (.done t')) :
    (∃ rest, t.bytes ++ l = t'.bytes ++ 0x20 :: rest) ∧ Finished uri redirMark t' := by
  induction l generalizing t with
  | nil => cases hs
  | cons c l ih =>
    cases hc : t.step uri redirMark c with
    | inl t₁ =>
      rw [scan_next hc] at hs
      obtain ⟨h₁, hbytes⟩ := reached_step h hc
      obtain ⟨⟨rest, hrest⟩, hfin⟩ := ih h₁ hs
      refine ⟨⟨rest, ?_⟩, hfin⟩
      rw [← hrest, hbytes, append_assoc, singleton_append]
    | inr r =>
      rw [scan_stop hc] at hs
      cases hs
      obtain ⟨rfl, hbytes, hfin⟩ := finished_step h hc
      exact ⟨⟨l, by rw [hbytes]⟩, hfin⟩

/-- The scheme and the authority of a target, if it has them -/
def beforePath (target : List UInt8) : List UInt8 :=
  if target.head? = some 0x2f then [] else target.take 7 ++ (target.drop 7).takeWhile (· ≠ 0x2f)

def fromPath (target : List UInt8) : List UInt8 := target.drop (beforePath target).length

/-- The path starts with a slash and the name of the mark. -/
def hasMark (path : List UInt8) : Bool :=
  ((path.drop 1).take redirMarkEq.length).map tfwLc = redirMarkEq

/-- The bytes before the path, and those of a mark that is not removed, are in the alphabet. -/
def cleanWhen (uri : UriAlphabet) (redirMark : Bool) (vh : Sess.Vhost)
    (target : List UInt8) : Bool :=
  (beforePath target).all uri.mem &&
    (!(redirMark && vh.cookie.maxMisses == 0 && hasMark (fromPath target)) ||
      (((fromPath target).drop (1 + redirMarkEq.length)).take markSize).all uri.mem)

lemma Authority.ne_nil (h : Authority f) : f ≠ [] := by
  rintro rfl
  exact absurd h.len (by decide)

lemma beforePath_eq (hf : f = [] ∨ Authority f)
    (hrest : rest.head? = some 0x2f ∨ (rest = [] ∧ f ≠ [])) : beforePath (f ++ rest) = f := by
  rcases hf with rfl | hf
  · rcases hrest with hrest | ⟨-, hne⟩
    · exact if_pos hrest
    · exact absurd rfl hne
  · have htail : (f.drop 7 ++ rest).takeWhile (· ≠ 0x2f) = f.drop 7 := by
      rw [takeWhile_append_of_pos]
      · rcases hrest with hrest | ⟨rfl, -⟩
        · cases rest with
          | nil => cases hrest
          | cons b rest =>
            cases hrest
            simp
        · simp
      · intro b hb
        exact decide_eq_true (fun e => hf.tail (e ▸ hb))
    rw [beforePath, head?_append_of_ne_nil f hf.ne_nil, if_neg hf.head,
      take_append_of_le_length hf.len, drop_append_of_le_length hf.len, htail,
      take_append_drop]

lemma fromPath_eq (hf : f = [] ∨ Authority f)
    (hrest : rest.head? = some 0x2f ∨ (rest = [] ∧ f ≠ [])) : fromPath (f ++ rest) = rest := by
  rw [fromPath, beforePath_eq hf hrest, drop_left]

lemma IsName.mem (h : IsName m) : m.all uri.mem = true := by
  have htake : m.map tfwLc = redirMarkEq.take redirMarkEq.length := by rw [h, take_length]
  exact all_eq_true.mpr (mem_of_name htake)

lemma IsName.length (h : IsName m) : m.length = redirMarkEq.length := by
  rw [← h, length_map]

lemma Finished.adjusted_clean (h : Finished uri redirMark t) :
    (t.adjusted vh).all uri.mem = cleanWhen uri redirMark vh t.bytes := by
  have hslash : uri.mem 0x2f = true := uri.plain 0x2f (by decide)
  obtain ⟨st, u, f, mark, path⟩ := t
  cases h with
  | front hf hm hp =>
    cases hm
    cases hp
    have hbytes : Target.bytes ⟨st, u, f, [], []⟩ = f ++ [] := by simp [Target.bytes]
    have hnil : ([] : List UInt8).head? = some 0x2f ∨ ([] : List UInt8) = [] ∧ f ≠ [] :=
      .inr ⟨rfl, hf.ne_nil⟩
    rw [cleanWhen, hbytes, beforePath_eq (.inr hf) hnil, fromPath_eq (.inr hf) hnil]
    simp [Target.adjusted]
  | @path p hf hm ht hp hno =>
    cases hm
    cases ht
    have hbytes : Target.bytes ⟨st, u, f, [], 0x2f :: p⟩ = f ++ 0x2f :: p := by
      simp [Target.bytes]
    have hno : (redirMark && vh.cookie.maxMisses == 0 && hasMark (0x2f :: p)) = false := by
      cases redirMark with
      | false => rfl
      | true =>
        have hname : hasMark (0x2f :: p) = false := decide_eq_false (hno rfl)
        rw [hname, Bool.and_false]
    have hall : p.all uri.mem = true := all_eq_true.mpr hp
    rw [cleanWhen, hbytes, beforePath_eq hf (.inl rfl), fromPath_eq hf (.inl rfl), hno]
    simp only [Target.adjusted, append_nil, ite_self, or_true, all_append,
      all_cons, hslash, hall, Bool.and_true, Bool.not_false, Bool.true_or]
  | @mark m v hr hf hm hv ht hp hp0 =>
    cases ht
    have hbytes : Target.bytes ⟨st, u, f, 0x2f :: (m ++ v), path⟩ =
        f ++ 0x2f :: (m ++ (v ++ path)) := by simp [Target.bytes]
    have hlen := hm.length
    have hname : hasMark (0x2f :: (m ++ (v ++ path))) = true := by
      rw [hasMark, drop_one, tail_cons, ← hlen, take_left]
      exact decide_eq_true hm
    have hvalue : ((0x2f :: (m ++ (v ++ path))).drop (1 + redirMarkEq.length)).take
      markSize = v := by
      rw [Nat.add_comm, drop_succ_cons, ← hlen, drop_left, ← hv, take_left]
    have hall : path.all uri.mem = true := all_eq_true.mpr hp
    rw [cleanWhen, hbytes, beforePath_eq hf (.inl rfl), fromPath_eq hf (.inl rfl), hname,
      hvalue, hr]
    rw [Target.adjusted]
    by_cases hmiss : vh.cookie.maxMisses = 0
    · simp [hmiss, hslash, hall, hm.mem]
    · simp [hmiss, hall]

/-- The bytes of a forwarded target are in the alphabet just when those before its path are,
and those of a mark that the virtual host does not remove. -/
theorem forwarded_clean_iff (uri : UriAlphabet) (redirMark : Bool) (segs : List (List UInt8))
    (w : Sess.World) (req : Sess.Req) (t : Target) (out : List UInt8)
    (hparse : parseTarget uri redirMark segs = .inr (.done t))
    (hout : forwarded w req t = some out) :
    (∃ rest, segs.flatten = t.bytes ++ 0x20 :: rest) ∧
      ((∀ c ∈ out, uri.mem c = true) ↔
        ∃ vh, req.vhost = some vh ∧ cleanWhen uri redirMark vh t.bytes = true) := by
  rw [parseTarget, feed_scan] at hparse
  obtain ⟨⟨rest, hrest⟩, hfin⟩ := scan_done .uri hparse
  refine ⟨⟨rest, hrest⟩, ?_⟩
  rw [forwarded] at hout
  split at hout
  next vh _ hvh =>
    cases hout
    rw [hvh, ← all_eq_true, hfin.adjusted_clean]
    constructor
    · exact fun h => ⟨vh, rfl, h⟩
    · rintro ⟨vh', hvh', h⟩
      cases hvh'
      exact h
  next => cases hout

def builtinUri : UriAlphabet := ⟨builtinTable .uri, forall_byte (by decide +kernel)⟩

/-- A request for a virtual host without sticky cookies -/
def plainReq : Sess.Req where
  vhost := some ⟨ofAscii "v", ⟨[], false, false, 0, 0, 0⟩, none, 302⟩
  whitelist := false
  isGet := true
  acceptHtml := true
  jrxtstamp := 0
  cookies := []
  mark := []

def smuggled : List UInt8 :=
  ofAscii " HTTP/1.1\r\nHost: a\r\n\r\nGET /private HTTP/1.1\r\nHost: b\r\nX: 1234567"

/-- `http://a.example/index` with a mark -/
def markedIndex : Target :=
  ⟨.absPath, false, ofAscii "http://a.example", ofAscii "/__tfw=" ++ replicate 64 0x30,
    ofAscii "/index"⟩

theorem forwarded_clean_marked :
    parseTarget builtinUri true [ofAscii "http://a.example/__tfw=" ++ replicate 30 0x30,
        replicate 34 0x30 ++ ofAscii "/index HTTP/1.1"] = .inr (.done markedIndex) ∧
      forwarded Sess.signingWorld plainReq markedIndex = some markedIndex.bytes ∧
      ∀ c ∈ markedIndex.bytes, builtinUri.mem c = true := by
  have hparse : parseTarget builtinUri true [ofAscii "http://a.example/__tfw=" ++ replicate 30 0x30,
      replicate 34 0x30 ++ ofAscii "/index HTTP/1.1"] = .inr (.done markedIndex) := by
    decide +kernel
  have hout : forwarded Sess.signingWorld plainReq markedIndex = some markedIndex.bytes := by
    decide +kernel
  refine ⟨hparse, hout, (forwarded_clean_iff builtinUri true _ _ _ _ _ hparse hout).2.mpr ?_⟩
  exact ⟨_, rfl, by decide +kernel⟩

/-- The mark is read with the second request in it, and forwarded so to the backend of a
virtual host that has no use for marks. -/
theorem mark_smuggles :
    parseTarget builtinUri true [ofAscii "/__tfw=" ++ smuggled ++ ofAscii "/ HTTP/1.1"] =
        .inr (.done ⟨.absPath, false, [], ofAscii "/__tfw=" ++ smuggled, [0x2f]⟩) ∧
      (∀ w, forwarded w plainReq ⟨.absPath, false, [], ofAscii "/__tfw=" ++ smuggled, [0x2f]⟩ =
        some (ofAscii "/__tfw=" ++ smuggled ++ [0x2f])) ∧
      (0x20 ∈ smuggled ∧ 0x0d ∈ smuggled ∧ 0x0a ∈ smuggled) ∧
      builtinUri.mem 0x20 = false ∧ builtinUri.mem 0x0d = false ∧ builtinUri.mem 0x0a = false := by
  exact ⟨by decide +kernel, fun w => rfl, by decide +kernel, by decide +kernel⟩

end Tempesta.Uri
