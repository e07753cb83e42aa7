import Tempesta.Http.Stricmp
import Tempesta.Sess.Sticky

/-!
How a request gets its session. A request without an acceptable sticky cookie is answered
by a redirect that carries a cookie with a time stamp and the HMAC for it. The time stamp
and the HMAC travel through one `StickyVal`, which verification fills from the cookie of
the client.
-/

namespace Tempesta.Sess

open Http

/-- `TfwCfgJsCh`; of the body only the number of its chunks matters. -/
structure JsCh where
  bodyChunks : Nat
  delayMin : Nat
  delayLimit : Nat
  delayRange : Nat

/-- A virtual host with its `TfwStickyCookie` -/
structure Vhost where
  name : List UInt8
  cookie : Sticky
  jsChallenge : Option JsCh
  redirectCode : Nat

/-- A request after parsing: the values of its `Cookie` headers and the redirection mark -/
structure Req where
  vhost : Option Vhost
  whitelist : Bool
  isGet : Bool
  acceptHtml : Bool
  jrxtstamp : Nat
  cookies : List (List FlagChunk)
  mark : List FlagChunk

/-- `TfwHttpSess` as the data base keeps it; its virtual host is known by the name. -/
structure HttpSess where
  expires : Nat
  vhost : Option (List UInt8)
  cval : List UInt8
  hmac : Hmac

/-- The system around one request -/
structure World extends Env where
  msecsToJiffies : Nat → Nat
  sessions : List HttpSess
  allocSess : Bool
  allocResp : Bool
  prepRedirect : Bool

structure RedirMarkVal where
  attNo : Nat
  ts : Nat
  hmac : Hmac

/-- `RedirMarkVal mv = {}` -/
def RedirMarkVal.zero : RedirMarkVal := ⟨0, 0, Vector.replicate 20 0⟩

/-- `sizeof(RedirMarkVal)`, which is packed -/
def redirMarkValSize : Nat := 4 + 8 + stickyKeyHmacLen

/-- The answer that `tfw_http_sticky_build_redirect` prepares -/
structure Redirect where
  sv : StickyVal
  mark : Option RedirMarkVal
  code : Nat
  jsBody : Bool

variable (w : World) (req : Req) (vh : Vhost)

/-- `tfw_http_redir_mark_get` -/
def redirMarkGet (mark : List FlagChunk) : Except Fault (Option (List FlagChunk)) :=
  if flat mark = [] then .ok none
  else
    match mark.dropWhile fun c => c.flag ≠ .value with
    | [] => .error .bug
    | c :: rest =>
      match strCollectCmp none (c :: rest) with
      | .found val => .ok (some val)
      | _ => .error .bug

/-- `tfw_http_redir_mark_verify` -/
def redirMarkVerify (markVal : List FlagChunk) (mv : RedirMarkVal) :
    Except Fault (SessRet × RedirMarkVal) :=
  if (flat markVal).length ≠ redirMarkValSize * 2 then .ok (.violate, mv)
  else
    let (attNo, cursor) := hexStrToBinGet 4 0 mv.attNo (markVal.map FlagChunk.data)
    let (ts, cursor) := hexStrToBinGet 8 0 mv.ts cursor
    match w.redirHmac attNo ts with
    | none => .ok (.violate, { mv with attNo, ts })
    | some hmac => do
        let r ← (hexStrToBinHmac hmac cursor).ret
        return (r, ⟨attNo, ts, hmac⟩)

/-- The end of `tfw_http_sess_check_redir_mark`: `__redir_hmac_calc` for the new mark -/
def redirMarkSign (mv : RedirMarkVal) : SessRet × RedirMarkVal :=
  match w.redirHmac mv.attNo mv.ts with
  | none => (.failure, mv)
  | some hmac => (.success, { mv with hmac })

/-- `tfw_http_sess_check_redir_mark` -/
def sessCheckRedirMark : Except Fault (SessRet × RedirMarkVal) := do
  let tmt := ulong (w.hz.toNat * vh.cookie.tmtSec.toNat)
  match ← redirMarkGet req.mark with
  | none => return redirMarkSign w ⟨1, w.jiffies .markFirst, Vector.replicate 20 0⟩
  | some markVal =>
    let (r, mv) ← redirMarkVerify w markVal .zero
    let mv : RedirMarkVal :=
      if r = .success ∧ tmt ≠ 0 ∧ ulong (mv.ts + tmt) < w.jiffies .markTimeout then
        { mv with ts := w.jiffies .markRestart, attNo := 0 }
      else mv
    let attNo := (mv.attNo + 1) % 2 ^ 32
    if r ≠ .success ∨ vh.cookie.maxMisses < attNo then return (.violate, { mv with attNo })
    else return redirMarkSign w ⟨attNo, mv.ts, Vector.replicate 20 0⟩

/-- `tfw_http_sticky_redirect_applied` -/
def stickyRedirectApplied : Bool :=
  if vh.jsChallenge.isNone then true else req.isGet && req.acceptHtml

/-- `tfw_http_sticky_build_redirect` comes to its end. -/
def redirectSent (mv : Option RedirMarkVal) (jschAllow : Bool) : Bool :=
  stickyRedirectApplied req vh && w.allocResp &&
    !(jschAllow && mv.isSome && vh.jsChallenge.any fun js => js.bodyChunks ≠ 2) && w.prepRedirect

/-- `tfw_http_sticky_build_redirect` -/
def stickyBuildRedirect (sv : StickyVal) (mv : Option RedirMarkVal) (jschAllow : Bool) :
    SessRet × Option Redirect :=
  if !stickyRedirectApplied req vh then (.jsNotSupported, none)
  else if !redirectSent w req vh mv jschAllow then (.failure, none)
  else (.redirectNeed, some ⟨sv, mv, if jschAllow then vh.redirectCode else 302,
    vh.jsChallenge.isSome && jschAllow⟩)

/-- The first part of `tfw_http_sticky_challenge_start` -/
def challengeMark : Except Fault (SessRet × Option RedirMarkVal) :=
  if vh.cookie.maxMisses = 0 then .ok (.success, none)
  else do
    let (r, mv) ← sessCheckRedirMark w req vh
    return (r, some mv)

/-- `tfw_http_sticky_challenge_start` -/
def stickyChallengeStart (sv : StickyVal) : Except Fault (SessRet × Option Redirect) :=
  match challengeMark w req vh with
  | .error f => .error f
  | .ok (.success, mv) =>
    if sv.ts = 0 then
      if (stickyCalc w.toEnv .challenge sv).1 then
        .ok (stickyBuildRedirect w req vh (stickyCalc w.toEnv .challenge sv).2 mv true)
      else .ok (.failure, none)
    else .ok (stickyBuildRedirect w req vh sv mv true)
  | .ok (r, _) => .ok (r, none)

/-- `tfw_http_sticky_get_req`: the value of the sticky cookie from the first header with it -/
def stickyGetReq (nameEq : List UInt8) : List (List FlagChunk) →
    Except Fault (Option (List FlagChunk))
  | [] => .ok none
  | hdr :: hdrs =>
    match searchCookie nameEq hdr false with
    | .notFound => stickyGetReq nameEq hdrs
    | .found val => .ok (some val)
    | .bug => .error .bug

/-- What `tfw_http_sticky_req_process` leaves: its result with the redirect it prepared, and the
sticky value and the cookie of the context -/
structure Processed where
  ret : SessRet
  redirect : Option Redirect
  sv : StickyVal
  cookieVal : List FlagChunk

/-- The request gets a challenge, with the context as it is. -/
def challenged (sv : StickyVal) (cookieVal : List FlagChunk) (given : StickyVal) :
    Except Fault Processed :=
  (stickyChallengeStart w req vh given).map fun x => ⟨x.1, x.2, sv, cookieVal⟩

/-- `tfw_http_sticky_req_process` -/
def stickyReqProcess : Except Fault Processed :=
  match stickyGetReq (vh.cookie.name ++ [0x3d]) req.cookies with
  | .error f => .error f
  | .ok none =>
    if !vh.cookie.enforce then .ok ⟨.success, none, .zero, []⟩
    else challenged w req vh .zero [] .zero
  | .ok (some value) =>
    match stickyVerify w.toEnv vh.cookie (value.map FlagChunk.data) .zero with
    | .error f => .error f
    | .ok (.success, sv) => .ok ⟨.success, none, sv, value⟩
    | .ok (_, sv) => challenged w req vh sv value sv

def timeAfterEq (a b : Nat) : Bool := (a + (2 ^ 64 - b % 2 ^ 64)) % 2 ^ 64 < 2 ^ 63

/-- `tfw_http_sess_check_jsch` -/
def sessCheckJsch (sv : StickyVal) : SessRet :=
  match vh.jsChallenge with
  | none => .success
  | some js =>
    if !stickyRedirectApplied req vh then .jsNotSupported
    else
      let minTime := ulong (sv.ts + js.delayMin + w.msecsToJiffies (sv.ts % js.delayRange))
      let maxTime := ulong (minTime + js.delayLimit)
      let restartTime := ulong (sv.ts + js.delayMin + w.msecsToJiffies js.delayRange)
      if timeAfterEq req.jrxtstamp minTime && timeAfterEq maxTime req.jrxtstamp then .success
      else if !timeAfterEq restartTime req.jrxtstamp then .jsRestart
      else .violate

/-- `tfw_http_sess_eq` -/
def sessEq (sv : StickyVal) (cookieVal : List FlagChunk) (s : HttpSess) : Bool :=
  !(s.expires < w.jiffies .expires) &&
    (if vh.cookie.learn then s.cval == flat cookieVal else s.hmac == sv.hmac) &&
    s.vhost.any fun name => stricmpEq [name] [vh.name]

/-- What `tdb_rec_get_alloc` gives: a session, or none with the result of the JavaScript
challenge -/
inductive SessRec where
  | found
  | null (jschRcode : SessRet)
  deriving DecidableEq

/-- `tdb_rec_get_alloc` with the hooks `tfw_http_sess_eq` and `tfw_http_sess_precreate` -/
def sessGetAlloc (sv : StickyVal) (cookieVal : List FlagChunk) : SessRec :=
  if w.sessions.any (sessEq w vh sv cookieVal) then .found
  else if vh.cookie.learn then .null .success
  else if sessCheckJsch w req vh sv ≠ .success then .null (sessCheckJsch w req vh sv)
  else if w.allocSess then .found
  else .null .success

/-- `tfw_http_sess_obtain` from the data base on -/
def sessFind (sv : StickyVal) (cookieVal : List FlagChunk) :
    Except Fault (SessRet × Option Redirect) :=
  match sessGetAlloc w req vh sv cookieVal with
  | .null rcode =>
    if vh.cookie.learn then .ok (.success, none)
    else if rcode ≠ .success then
      if rcode ≠ .jsRestart then .ok (rcode, none)
      else stickyChallengeStart w req vh .zero
    else .ok (.failure, none)
  | .found =>
    match redirMarkGet req.mark with
    | .error f => .error f
    | .ok none => .ok (.success, none)
    | .ok (some _) => .ok (stickyBuildRedirect w req vh sv none false)

/-- `tfw_http_sess_obtain` for a virtual host with sticky cookies -/
def sessObtainVhost : Except Fault (SessRet × Option Redirect) :=
  match stickyReqProcess w req vh with
  | .error f => .error f
  | .ok p =>
    if p.ret ≠ .success then .ok (p.ret, p.redirect)
    else if vh.cookie.learn ∨ p.sv.ts ≠ 0 then sessFind w req vh p.sv p.cookieVal
    else if (stickyCalc w.toEnv .session p.sv).1 then
      sessFind w req vh (stickyCalc w.toEnv .session p.sv).2 p.cookieVal
    else .ok (.failure, none)

/-- `tfw_http_sess_obtain`: the result and the redirect, if one is prepared -/
def sessObtain : Except Fault (SessRet × Option Redirect) :=
  match req.vhost with
  | none => .ok (.success, none)
  | some vh =>
    if vh.cookie.name = [] ∨ req.whitelist then .ok (.success, none)
    else sessObtainVhost w req vh

/-- The time stamp in a redirect is the current one, or that of a cookie of this request which
passed the checks. -/
def Sound (redirect : Redirect) : Prop :=
  (∃ site, redirect.sv.ts = w.jiffies site) ∨
    ∃ vh value, req.vhost = some vh ∧ vh.cookie.learn = false ∧
      stickyGetReq (vh.cookie.name ++ [0x3d]) req.cookies = .ok (some value) ∧
      (flat value).length = stickyValSize * 2 ∧ passes w.toEnv vh.cookie (flat value) = true ∧
      redirect.sv.ts = hexTs ((flat value).take 16)

/-- The sticky cookie has the right length but does not pass, its time stamp is neither zero nor
current, and the challenge ends with a redirect. -/
def Replays : Prop :=
  ∃ vh value mv, req.vhost = some vh ∧ vh.cookie.name ≠ [] ∧ req.whitelist = false ∧
    vh.cookie.learn = false ∧
    stickyGetReq (vh.cookie.name ++ [0x3d]) req.cookies = .ok (some value) ∧
    (flat value).length = stickyValSize * 2 ∧ passes w.toEnv vh.cookie (flat value) = false ∧
    hexTs ((flat value).take 16) ≠ 0 ∧ (∀ site, hexTs ((flat value).take 16) ≠ w.jiffies site) ∧
    challengeMark w req vh = .ok (.success, mv) ∧ redirectSent w req vh mv true = true

/-- Cookies are learned from the server, the session is known, and the target of the request
holds a redirection mark. -/
def LearnedMark : Prop :=
  ∃ vh cookieVal markVal, req.vhost = some vh ∧ vh.cookie.name ≠ [] ∧ req.whitelist = false ∧
    vh.cookie.learn = true ∧
    (stickyGetReq (vh.cookie.name ++ [0x3d]) req.cookies = .ok (some cookieVal) ∨
      stickyGetReq (vh.cookie.name ++ [0x3d]) req.cookies = .ok none ∧ cookieVal = [] ∧
        vh.cookie.enforce = false) ∧
    w.sessions.any (sessEq w vh .zero cookieVal) = true ∧
    redirMarkGet req.mark = .ok (some markVal) ∧ redirectSent w req vh none false = true ∧
    ∀ site, w.jiffies site ≠ 0

variable {w req vh}

lemma stickyCalc_ts (env : Env) (site : Site) (sv : StickyVal) :
    (stickyCalc env site sv).2.ts = env.jiffies site := by
  rw [stickyCalc, stickyCalcFor]
  split <;> rfl

variable {mv : Option RedirMarkVal} {jschAllow : Bool} {r : SessRet} {sv given : StickyVal}
  {cookieVal value cs : List FlagChunk}

lemma applied_of_sent (h : redirectSent w req vh mv jschAllow = true) :
    stickyRedirectApplied req vh = true := by
  simp only [redirectSent, Bool.and_eq_true] at h
  exact h.1.1.1

lemma stickyBuildRedirect_of_sent (sv : StickyVal) (h : redirectSent w req vh mv jschAllow = true) :
    ∃ redirect, stickyBuildRedirect w req vh sv mv jschAllow = (.redirectNeed, some redirect) ∧
      redirect.sv = sv := by
  refine ⟨⟨sv, mv, if jschAllow then vh.redirectCode else 302,
    vh.jsChallenge.isSome && jschAllow⟩, ?_, rfl⟩
  rw [stickyBuildRedirect, applied_of_sent h, h]
  rfl

variable {redirect : Redirect}

lemma sent_of_stickyBuildRedirect
    (h : stickyBuildRedirect w req vh sv mv jschAllow = (r, some redirect)) :
    redirectSent w req vh mv jschAllow = true ∧ redirect.sv = sv := by
  rw [stickyBuildRedirect] at h
  split at h
  next => cases h
  next =>
    split at h
    next => cases h
    next hsent =>
      cases h
      exact ⟨by simpa using hsent, rfl⟩

/-- A challenge carries the sticky value it is given, unless that has no time stamp. -/
theorem stickyChallengeStart_some (h : stickyChallengeStart w req vh sv = .ok (r, some redirect)) :
    ∃ mv, challengeMark w req vh = .ok (.success, mv) ∧ redirectSent w req vh mv true = true ∧
      (if sv.ts = 0 then redirect.sv.ts = w.jiffies .challenge else redirect.sv = sv) := by
  rw [stickyChallengeStart] at h
  split at h
  next => cases h
  next mv hmark =>
    refine ⟨mv, hmark, ?_⟩
    by_cases hts : sv.ts = 0
    · rw [if_pos hts] at h ⊢
      split at h
      next =>
        obtain ⟨hsent, hsv⟩ := sent_of_stickyBuildRedirect (Except.ok.inj h)
        rw [hsv]
        exact ⟨hsent, stickyCalc_ts ..⟩
      next => cases h
    · rw [if_neg hts] at h ⊢
      exact sent_of_stickyBuildRedirect (Except.ok.inj h)
  next => cases h

lemma stickyChallengeStart_sends (hts : sv.ts ≠ 0)
    (hmark : challengeMark w req vh = .ok (.success, mv))
    (hsent : redirectSent w req vh mv true = true) :
    ∃ redirect, stickyChallengeStart w req vh sv = .ok (.redirectNeed, some redirect) ∧
      redirect.sv = sv := by
  obtain ⟨redirect, hbuild, hsv⟩ := stickyBuildRedirect_of_sent sv hsent
  refine ⟨redirect, ?_, hsv⟩
  rw [stickyChallengeStart, hmark]
  dsimp only
  rw [if_neg hts, hbuild]

/-- From the data base on the sticky value is used as it is, or the challenge starts anew. -/
theorem sessFind_some (h : sessFind w req vh sv cookieVal = .ok (r, some redirect)) :
    redirect.sv.ts = w.jiffies .challenge ∨
      redirect.sv = sv ∧ sessGetAlloc w req vh sv cookieVal = .found ∧
        (∃ markVal, redirMarkGet req.mark = .ok (some markVal)) ∧
        redirectSent w req vh none false = true := by
  rw [sessFind] at h
  split at h
  next rcode _ =>
    split at h
    next => cases h
    next =>
      split at h
      next =>
        split at h
        next => cases h
        next =>
          obtain ⟨mv, -, -, hts⟩ := stickyChallengeStart_some h
          exact Or.inl hts
      next => cases h
  next hfound =>
    split at h
    next => cases h
    next => cases h
    next markVal hmark =>
      obtain ⟨hsent, hsv⟩ := sent_of_stickyBuildRedirect (Except.ok.inj h)
      exact Or.inr ⟨hsv, hfound, ⟨markVal, hmark⟩, hsent⟩

variable {x : Option Redirect}

lemma stickyChallengeStart_ne_success : stickyChallengeStart w req vh sv ≠ .ok (.success, x) := by
  have hbuild : ∀ sv mv, (stickyBuildRedirect w req vh sv mv true).1 ≠ .success := by
    intro sv mv
    rw [stickyBuildRedirect]
    split
    next => nofun
    next => split <;> nofun
  intro h
  rw [stickyChallengeStart] at h
  split at h
  next => cases h
  next =>
    split at h
    next =>
      split at h
      next => exact hbuild _ _ (congrArg Prod.fst (Except.ok.inj h))
      next => cases h
    next => exact hbuild _ _ (congrArg Prod.fst (Except.ok.inj h))
  next hr _ =>
    cases h
    exact hr rfl

lemma sessObtainVhost_challenged
    (hp : stickyReqProcess w req vh = challenged w req vh sv cookieVal given) :
    sessObtainVhost w req vh = stickyChallengeStart w req vh given := by
  rw [sessObtainVhost, hp, challenged]
  cases hstart : stickyChallengeStart w req vh given with
  | error f => rfl
  | ok x =>
    obtain ⟨r, redirect⟩ := x
    have hr : r ≠ .success := by
      rintro rfl
      exact stickyChallengeStart_ne_success hstart
    exact if_pos hr

lemma sound_of_unknown (hvh : req.vhost = some vh) (hname : vh.cookie.name ≠ [])
    (hwl : req.whitelist = false) (hbad : ¬ LearnedMark w req)
    (hcookie : stickyGetReq (vh.cookie.name ++ [0x3d]) req.cookies = .ok (some cookieVal) ∨
      stickyGetReq (vh.cookie.name ++ [0x3d]) req.cookies = .ok none ∧ cookieVal = [] ∧
        vh.cookie.enforce = false)
    (h : (if vh.cookie.learn ∨ StickyVal.zero.ts ≠ 0 then sessFind w req vh .zero cookieVal
      else if (stickyCalc w.toEnv .session .zero).1 then
        sessFind w req vh (stickyCalc w.toEnv .session .zero).2 cookieVal
      else .ok (.failure, none)) = .ok (r, some redirect)) :
    Sound w req redirect := by
  by_cases hlearn : vh.cookie.learn = true
  · rw [if_pos (Or.inl hlearn)] at h
    rcases sessFind_some h with hts | ⟨hsv, hfound, ⟨markVal, hmark⟩, hsent⟩
    · exact Or.inl ⟨_, hts⟩
    · by_cases hzero : ∃ site, w.jiffies site = 0
      · obtain ⟨site, hsite⟩ := hzero
        exact Or.inl ⟨site, by rw [hsv, hsite]; rfl⟩
      · refine absurd ⟨vh, cookieVal, markVal, hvh, hname, hwl, hlearn, hcookie, ?_, hmark, hsent,
          fun site hsite => hzero ⟨site, hsite⟩⟩ hbad
        by_contra hnone
        rw [sessGetAlloc, if_neg hnone, if_pos hlearn] at hfound
        cases hfound
  · have hcond : ¬ (vh.cookie.learn = true ∨ StickyVal.zero.ts ≠ 0) :=
      fun hor => hor.elim hlearn fun hz => hz rfl
    rw [if_neg hcond] at h
    split at h
    next =>
      rcases sessFind_some h with hts | ⟨hsv, -⟩
      · exact Or.inl ⟨_, hts⟩
      · exact Or.inl ⟨.session, by rw [hsv]; exact stickyCalc_ts ..⟩
    next => cases h

lemma sound_of_challenge (h : stickyChallengeStart w req vh given = .ok (r, some redirect))
    (hts : given.ts ≠ 0 → ∃ site, given.ts = w.jiffies site) : Sound w req redirect := by
  obtain ⟨mv, -, -, hsv⟩ := stickyChallengeStart_some h
  split at hsv
  next => exact Or.inl ⟨_, hsv⟩
  next hne =>
    obtain ⟨site, hsite⟩ := hts hne
    exact Or.inl ⟨site, by rw [hsv, hsite]⟩

lemma flat_eq_flatten : (cs.map FlagChunk.data).flatten = flat cs := rfl

lemma stickyReqProcess_right (hlearn : vh.cookie.learn = false)
    (hget : stickyGetReq (vh.cookie.name ++ [0x3d]) req.cookies = .ok (some value))
    (hlen : (flat value).length = stickyValSize * 2) :
    ∃ sv : StickyVal, sv.ts = hexTs ((flat value).take 16) ∧
      stickyReqProcess w req vh =
        if passes w.toEnv vh.cookie (flat value) then .ok ⟨.success, none, sv, value⟩
        else challenged w req vh sv value sv := by
  have hverify := stickyVerify_eq w.toEnv hlearn (value.map FlagChunk.data) .zero hlen
  rw [flat_eq_flatten] at hverify
  refine ⟨⟨hexTs ((flat value).take 16),
    (w.stickyHmac (hexTs ((flat value).take 16))).getD StickyVal.zero.hmac⟩, rfl, ?_⟩
  rw [stickyReqProcess, hget]
  dsimp only
  rw [hverify]
  by_cases hpass : passes w.toEnv vh.cookie (flat value) = true
  · simp only [hpass, if_true]
  · rw [if_neg hpass, if_neg hpass]

lemma stickyReqProcess_wrong (hlearn : vh.cookie.learn = false)
    (hget : stickyGetReq (vh.cookie.name ++ [0x3d]) req.cookies = .ok (some value))
    (hlen : (flat value).length ≠ stickyValSize * 2) :
    ∃ sv : StickyVal, sv.ts = w.jiffies .badLength ∧
      stickyReqProcess w req vh = challenged w req vh sv value sv := by
  have hverify := stickyVerify_bad_length w.toEnv hlearn (value.map FlagChunk.data) .zero
    hlen
  refine ⟨(stickyCalc w.toEnv .badLength .zero).2, stickyCalc_ts .., ?_⟩
  rw [stickyReqProcess, hget]
  dsimp only
  rw [hverify]

lemma stickyReqProcess_learn (hlearn : vh.cookie.learn = true)
    (hget : stickyGetReq (vh.cookie.name ++ [0x3d]) req.cookies = .ok (some value)) :
    stickyReqProcess w req vh = .ok ⟨.success, none, .zero, value⟩ := by
  rw [stickyReqProcess, hget]
  simp [stickyVerify, hlearn]

lemma stickyReqProcess_none
    (hget : stickyGetReq (vh.cookie.name ++ [0x3d]) req.cookies = .ok none) :
    stickyReqProcess w req vh =
      if vh.cookie.enforce then challenged w req vh .zero [] .zero
      else .ok ⟨.success, none, .zero, []⟩ := by
  rw [stickyReqProcess, hget]
  cases vh.cookie.enforce <;> rfl

lemma sound_of_not_bad (hvh : req.vhost = some vh) (hname : vh.cookie.name ≠ [])
    (hwl : req.whitelist = false) (hreplays : ¬ Replays w req) (hlearned : ¬ LearnedMark w req)
    (h : sessObtainVhost w req vh = .ok (r, some redirect)) : Sound w req redirect := by
  cases hget : stickyGetReq (vh.cookie.name ++ [0x3d]) req.cookies with
  | error f =>
    rw [sessObtainVhost, stickyReqProcess, hget] at h
    cases h
  | ok found =>
    cases found with
    | none =>
      have hp := stickyReqProcess_none hget (w := w)
      cases henf : vh.cookie.enforce with
      | false =>
        rw [henf, if_neg (by simp)] at hp
        rw [sessObtainVhost, hp] at h
        exact sound_of_unknown hvh hname hwl hlearned (Or.inr ⟨hget, rfl, henf⟩) h
      | true =>
        rw [henf, if_pos rfl] at hp
        rw [sessObtainVhost_challenged hp] at h
        exact sound_of_challenge h fun hz => absurd rfl hz
    | some value =>
      by_cases hlearn : vh.cookie.learn = true
      · rw [sessObtainVhost, stickyReqProcess_learn hlearn hget] at h
        exact sound_of_unknown hvh hname hwl hlearned (Or.inl hget) h
      · rw [Bool.not_eq_true] at hlearn
        by_cases hlen : (flat value).length = stickyValSize * 2
        · obtain ⟨sv, hts, hp⟩ := stickyReqProcess_right (w := w) hlearn hget hlen
          by_cases hpass : passes w.toEnv vh.cookie (flat value) = true
          · rw [if_pos hpass] at hp
            rw [sessObtainVhost, hp] at h
            change (if vh.cookie.learn ∨ sv.ts ≠ 0 then _ else _) = _ at h
            split at h
            next =>
              rcases sessFind_some h with hch | ⟨hsv, -⟩
              · exact Or.inl ⟨_, hch⟩
              · exact Or.inr ⟨vh, value, hvh, hlearn, hget, hlen, hpass, by rw [hsv, hts]⟩
            next =>
              split at h
              next =>
                rcases sessFind_some h with hch | ⟨hsv, -⟩
                · exact Or.inl ⟨_, hch⟩
                · exact Or.inl ⟨.session, by rw [hsv]; exact stickyCalc_ts ..⟩
              next => cases h
          · rw [if_neg hpass] at hp
            rw [sessObtainVhost_challenged hp] at h
            refine sound_of_challenge h fun hz => ?_
            by_contra hsite
            obtain ⟨mv, hmark, hsent, -⟩ := stickyChallengeStart_some h
            rw [hts] at hz
            exact hreplays ⟨vh, value, mv, hvh, hname, hwl, hlearn, hget, hlen,
              by simpa using hpass, hz, fun site he => hsite ⟨site, hts.trans he⟩, hmark, hsent⟩
        · obtain ⟨sv, hts, hp⟩ := stickyReqProcess_wrong (w := w) hlearn hget hlen
          rw [sessObtainVhost_challenged hp] at h
          exact sound_of_challenge h fun _ => ⟨_, hts⟩

lemma sessObtain_vhost (hvh : req.vhost = some vh) (hname : vh.cookie.name ≠ [])
    (hwl : req.whitelist = false) : sessObtain w req = sessObtainVhost w req vh := by
  rw [sessObtain, hvh]
  exact if_neg (by simp [hname, hwl])

lemma Replays.unsound (h : Replays w req) :
    ∃ r redirect, sessObtain w req = .ok (r, some redirect) ∧ ¬ Sound w req redirect := by
  obtain ⟨vh, value, mv, hvh, hname, hwl, hlearn, hget, hlen, hpass, hz, hsite, hmark, hsent⟩ := h
  obtain ⟨sv, hts, hp⟩ := stickyReqProcess_right (w := w) hlearn hget hlen
  rw [if_neg (by simp [hpass])] at hp
  rw [← hts] at hz
  obtain ⟨redirect, hstart, hsv⟩ := stickyChallengeStart_sends hz hmark hsent
  refine ⟨.redirectNeed, redirect, ?_, ?_⟩
  · rw [sessObtain_vhost hvh hname hwl, sessObtainVhost_challenged hp, hstart]
  · rintro (⟨site, he⟩ | ⟨vh', value', hvh', -, hget', -, hpass', -⟩)
    · rw [hsv, hts] at he
      exact hsite site he
    · cases hvh.symm.trans hvh'
      cases hget.symm.trans hget'
      rw [hpass] at hpass'
      cases hpass'

lemma LearnedMark.unsound (h : LearnedMark w req) :
    ∃ r redirect, sessObtain w req = .ok (r, some redirect) ∧ ¬ Sound w req redirect := by
  obtain ⟨vh, cookieVal, markVal, hvh, hname, hwl, hlearn, hcookie, hsess, hmark, hsent, hzero⟩ := h
  have hp : stickyReqProcess w req vh = .ok ⟨.success, none, .zero, cookieVal⟩ := by
    rcases hcookie with hget | ⟨hget, rfl, henf⟩
    · exact stickyReqProcess_learn hlearn hget
    · rw [stickyReqProcess_none hget, henf]
      rfl
  obtain ⟨redirect, hbuild, hsv⟩ := stickyBuildRedirect_of_sent .zero hsent
  have hfind : sessFind w req vh .zero cookieVal = .ok (.redirectNeed, some redirect) := by
    have hfound : sessGetAlloc w req vh .zero cookieVal = .found := by
      rw [sessGetAlloc, if_pos hsess]
    rw [sessFind, hfound, hmark]
    dsimp only
    rw [hbuild]
  refine ⟨.redirectNeed, redirect, ?_, ?_⟩
  · rw [sessObtain_vhost hvh hname hwl, sessObtainVhost, hp]
    dsimp only
    rw [if_neg (by simp), if_pos (Or.inl hlearn), hfind]
  · rintro (⟨site, he⟩ | ⟨vh', value', hvh', hlearn', -⟩)
    · rw [hsv] at he
      exact hzero site he.symm
    · cases hvh.symm.trans hvh'
      rw [hlearn] at hlearn'
      cases hlearn'

/-- For every request: redirects carry only current time stamps and those of cookies that were
verified, exactly if no cookie is replayed and no mark comes with a learned session. -/
theorem sessObtain_sound_iff (w : World) (req : Req) :
    (∀ r redirect, sessObtain w req = .ok (r, some redirect) → Sound w req redirect) ↔
      ¬ (Replays w req ∨ LearnedMark w req) := by
  constructor
  · rintro hsound (hbad | hbad)
    · obtain ⟨r, redirect, h, hnot⟩ := hbad.unsound
      exact hnot (hsound r redirect h)
    · obtain ⟨r, redirect, h, hnot⟩ := hbad.unsound
      exact hnot (hsound r redirect h)
  · intro hbad r redirect h
    cases hvh : req.vhost with
    | none =>
      rw [sessObtain, hvh] at h
      cases h
    | some vh =>
      by_cases hcfg : vh.cookie.name = [] ∨ req.whitelist = true
      · rw [sessObtain, hvh] at h
        dsimp only at h
        rw [if_pos hcfg] at h
        cases h
      · obtain ⟨hname, hwl⟩ := not_or.mp hcfg
        rw [Bool.not_eq_true] at hwl
        rw [sessObtain_vhost hvh hname hwl] at h
        exact sound_of_not_bad hvh hname hwl (fun hr => hbad (Or.inl hr))
          (fun hl => hbad (Or.inr hl)) h

/-- A server at `jiffies` 5000 whose HMAC of a time stamp is the stamp's low byte, repeated -/
def signingWorld : World where
  jiffies _ := 5000
  hz := 1000
  stickyHmac ts := some (Vector.replicate 20 (UInt8.ofNat ts))
  redirHmac _ _ := none
  msecsToJiffies ms := ms
  sessions := []
  allocSess := true
  allocResp := true
  prepRedirect := true

/-- `Cookie: __tfw=` with the time stamp 0x7fffffff and no HMAC at all -/
def forgedReq : Req where
  vhost := some ⟨ofAscii "v", ⟨ofAscii "__tfw", false, true, 0, 0, 300⟩, none, 302⟩
  whitelist := false
  isGet := true
  acceptHtml := true
  jrxtstamp := 0
  cookies := [[⟨ofAscii "__tfw=", .name⟩,
    ⟨ofAscii "000000007fffffff0000000000000000000000000000000000000000", .value⟩]]
  mark := []

/-- The client gets the signature of the time stamp it chose. -/
theorem forged_stamp_signed :
    ∃ redirect, sessObtain signingWorld forgedReq = .ok (.redirectNeed, some redirect) ∧
      redirect.sv.ts = 0x7fffffff ∧
      signingWorld.stickyHmac 0x7fffffff = some redirect.sv.hmac ∧
      ¬ Sound signingWorld forgedReq redirect := by
  refine ⟨⟨⟨0x7fffffff, Vector.replicate 20 0xff⟩, none, 302, false⟩, ?_, rfl, ?_, ?_⟩
  · rfl
  · rfl
  · rintro (⟨site, he⟩ | ⟨vh, value, hvh, -, hget, -, hpass, -⟩)
    · cases he
    · cases hvh
      cases hget
      cases hpass

end Tempesta.Sess
