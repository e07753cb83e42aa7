import Tempesta.Cache.Lookup

/-!
Serving a request from the cache of a node.
-/

namespace Tempesta.Cache

open List

/-- What the rest of the program answers while a request is processed: the time, whether the
conditional headers let an entry be sent (`tfw_handle_validation_req`), the stream of an
HTTP/2 request before and after the response is built, and whether a response could be
built from an entry. -/
structure NodeEnv where
  now : Int
  validation : TfwCacheEntry → Bool
  streamId : Bool
  streamIdClose : Bool
  buildResp : TfwCacheEntry → Bool

/-- What becomes of a request: it is answered with an entry or, by its conditions, without
the body; the stream was closed, which frees it; there is `only-if-cached`; or it goes on
to a backend. -/
inductive Outcome where
  | response (ce : TfwCacheEntry) (lifetime : Int)
  | condition (ce : TfwCacheEntry)
  | freed (ce : TfwCacheEntry)
  | notCached
  | forwarded
  deriving DecidableEq

/-- The label `out` without a response -/
def processOut (req : CacheReq) : Outcome :=
  if ccAny req.cacheCtl.flags ccOifcached then .notCached else .forwarded

/-- `cache_req_process_node` -/
def processNode (hashStr : List UInt8 → UInt64) (env : NodeEnv) (db : CacheDb) (req : CacheReq) :
    Outcome :=
  match dbceGet hashStr db req with
  | none => processOut req
  | some (_, ce) =>
    let lifetime := entryIsLive env.now req.cacheCtl ce.times
    if lifetime = 0 then processOut req
    else if !env.validation ce then .condition ce
    else if req.isH2 && !env.streamId then .freed ce
    else if !env.buildResp ce then processOut req
    else if req.isH2 && !env.streamIdClose then .freed ce
    else .response ce lifetime

/-- An entry stored for the request's key that is live for the request -/
def LiveFor (now : Int) (req : CacheReq) (ce : TfwCacheEntry) : Prop :=
  entryKeyEq req ce = true ∧ entryIsLive now req.cacheCtl ce.times ≠ 0

def Outcome.entry : Outcome → Option TfwCacheEntry
  | .response ce _ => some ce
  | .condition ce => some ce
  | .freed ce => some ce
  | .notCached => none
  | .forwarded => none

lemma Outcome.entry_freed (ce : TfwCacheEntry) : (Outcome.freed ce).entry = some ce := rfl

/-- If the chain has a live entry, then a live entry is used. -/
def FreshUsed (hashStr : List UInt8 → UInt64) (env : NodeEnv) (db : CacheDb) (req : CacheReq) :
    Prop :=
  (∃ ce ∈ db (reqKeyCalc hashStr req), LiveFor env.now req ce) →
    ∃ ce ∈ db (reqKeyCalc hashStr req), LiveFor env.now req ce ∧
      (processNode hashStr env db req).entry = some ce

/-- The program goes on with an entry it has found live. -/
def Usable (env : NodeEnv) (req : CacheReq) (ce : TfwCacheEntry) : Prop :=
  env.validation ce = false ∨ (req.isH2 = true ∧ env.streamId = false) ∨ env.buildResp ce = true

lemma processOut_entry (req : CacheReq) : (processOut req).entry = none := by
  rw [processOut]
  split
  · rfl
  · rfl

variable {ce e : TfwCacheEntry} {db : CacheDb} {req : CacheReq} {hashStr : List UInt8 → UInt64}
  {pos : Nat} {pre post : List TfwCacheEntry}

section found
variable {env : NodeEnv}

lemma processNode_entry_of_none (h : dbceGet hashStr db req = none) :
    (processNode hashStr env db req).entry = none := by
  rw [processNode, h]
  exact processOut_entry req

lemma processNode_entry_of_stale (h : dbceGet hashStr db req = some (pos, ce))
    (hstale : entryIsLive env.now req.cacheCtl ce.times = 0) :
    (processNode hashStr env db req).entry = none := by
  rw [processNode, h]
  dsimp only
  rw [if_pos hstale]
  exact processOut_entry req

lemma processNode_entry_iff (h : dbceGet hashStr db req = some (pos, ce))
    (hlive : entryIsLive env.now req.cacheCtl ce.times ≠ 0) :
    (processNode hashStr env db req).entry = some e ↔ ce = e ∧ Usable env req ce := by
  rw [processNode, h, Usable]
  dsimp only
  rw [if_neg hlive]
  cases hval : env.validation ce with
  | false => simp [Outcome.entry]
  | true =>
    cases hbuild : env.buildResp ce with
    | false =>
      cases hh2 : req.isH2 <;> cases hid : env.streamId <;>
        simp [processOut_entry, Outcome.entry_freed]
    | true =>
      cases hh2 : req.isH2 <;> cases hid : env.streamId <;>
        cases hclose : env.streamIdClose <;> simp [Outcome.entry]

end found

lemma exists_first {α : Type} {P : α → Prop} {l : List α} (h : ∃ x ∈ l, P x) :
    ∃ pre x post, l = pre ++ x :: post ∧ P x ∧ ∀ e ∈ pre, ¬ P e := by
  induction l with
  | nil =>
    obtain ⟨x, hx, -⟩ := h
    cases hx
  | cons y l ih =>
    by_cases hy : P y
    · exact ⟨[], y, l, rfl, hy, fun e he => absurd he not_mem_nil⟩
    · obtain ⟨x, hx, hP⟩ := h
      obtain rfl | hx := mem_cons.mp hx
      · exact absurd hP hy
      · obtain ⟨pre, z, post, rfl, hz, hpre⟩ := ih ⟨x, hx, hP⟩
        exact ⟨y :: pre, z, post, rfl, hz, forall_mem_cons.mpr ⟨hy, hpre⟩⟩

lemma dbceGet_of_first (hchain : db (reqKeyCalc hashStr req) = pre ++ ce :: post)
    (hpre : ∀ e ∈ pre, entryKeyEq req e = false) (hce : entryKeyEq req ce = true) :
    dbceGet hashStr db req = some (pre.length, ce) := by
  rw [dbceGet, hchain]
  have hidx : (pre ++ ce :: post).findIdx (entryKeyEq req) = pre.length := by
    rw [findIdx_append, if_neg, findIdx_cons, hce]
    · exact Nat.zero_add _
    · intro hlt
      obtain ⟨e, he, hmatch⟩ := findIdx_lt_length.mp hlt
      rw [hpre e he] at hmatch
      exact absurd hmatch Bool.false_ne_true
  rw [hidx, getElem?_append_right (Nat.le_refl _), Nat.sub_self]
  rfl

/-- Before the first live entry of the chain there is no stale one with the request's key, and
the program can use the live one. -/
def FirstLive (env : NodeEnv) (req : CacheReq) (chain : List TfwCacheEntry) : Prop :=
  ∀ pre ce post, chain = pre ++ ce :: post → LiveFor env.now req ce →
    (∀ e ∈ pre, ¬ LiveFor env.now req e) → (∀ e ∈ pre, entryKeyEq req e = false) ∧ Usable env req ce

theorem freshUsed_iff (hashStr : List UInt8 → UInt64) (env : NodeEnv) (db : CacheDb)
    (req : CacheReq) :
    FreshUsed hashStr env db req ↔ FirstLive env req (db (reqKeyCalc hashStr req)) := by
  constructor
  · intro h pre ce post hchain hlive hpre
    have hmem : ce ∈ db (reqKeyCalc hashStr req) := by
      rw [hchain]
      exact mem_append_right pre mem_cons_self
    obtain ⟨used, -, -, hused⟩ := h ⟨ce, hmem, hlive⟩
    cases hget : dbceGet hashStr db req with
    | none =>
      rw [processNode_entry_of_none hget] at hused
      cases hused
    | some found =>
      obtain ⟨pos, first⟩ := found
      obtain ⟨hpos, hmatch, hbefore⟩ := dbceGet_eq_some hget
      by_cases hstale : entryIsLive env.now req.cacheCtl first.times = 0
      · rw [processNode_entry_of_stale hget hstale] at hused
        cases hused
      · obtain ⟨-, huse⟩ := (processNode_entry_iff hget hstale).mp hused
        rw [hchain] at hpos hbefore
        have hge : pre.length ≤ pos := by
          by_contra hlt
          rw [getElem?_append_left (by omega)] at hpos
          exact hpre first (mem_of_getElem? hpos) ⟨hmatch, hstale⟩
        have hle : pos ≤ pre.length := by
          by_contra hlt
          have hce := hbefore pre.length (by omega) ce (by
            rw [getElem?_append_right (Nat.le_refl _), Nat.sub_self]
            rfl)
          rw [hlive.1] at hce
          cases hce
        obtain rfl := Nat.le_antisymm hle hge
        rw [getElem?_append_right (Nat.le_refl _), Nat.sub_self] at hpos
        obtain rfl := Option.some.inj hpos
        refine ⟨?_, huse⟩
        intro e he
        obtain ⟨i, hi, rfl⟩ := getElem_of_mem he
        apply hbefore i hi
        rw [getElem?_append_left hi, getElem?_eq_getElem hi]
  · intro h hexists
    obtain ⟨pre, ce, post, hchain, hlive, hpre⟩ := exists_first hexists
    obtain ⟨hnone, huse⟩ := h pre ce post hchain hlive hpre
    have hget := dbceGet_of_first hchain hnone hlive.1
    refine ⟨ce, ?_, hlive, (processNode_entry_iff hget hlive.2).mpr ⟨rfl, huse⟩⟩
    rw [hchain]
    exact mem_append_right pre mem_cons_self

/-- An entry of one second that was stored at the time 0, and one stored at the time 100. -/
def staleRoot : TfwCacheEntry :=
  { plainEntry (rootOf (ofAscii "a.example")) with times := ⟨0, 0, 0, 0, 1⟩ }

def freshRoot : TfwCacheEntry :=
  { plainEntry (rootOf (ofAscii "a.example")) with times := ⟨0, 100, 100, 100, 60⟩ }

/-- The expired entry stands first in the chain: the request goes to the backend although the
response fetched to replace it is fresh. -/
theorem fresh_entry_not_used :
    LiveFor 101 (rootOf (ofAscii "a.example")) freshRoot ∧
    ∀ hashStr, processNode hashStr ⟨101, fun _ => true, true, true, fun _ => true⟩
      (fun _ => [staleRoot, freshRoot]) (rootOf (ofAscii "a.example")) = .forwarded := by
  refine ⟨⟨by decide, by decide⟩, fun _ => rfl⟩

end Tempesta.Cache
