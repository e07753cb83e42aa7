import Tempesta.Cache.Control

/-!
Responses to requests with an `Authorization` header. They are shared only if the response
allows it, but the permission is looked up among the directives of the request.
-/

namespace Tempesta.Cache

/-- The request without its `Authorization` header -/
def withoutAuthorization (req : UInt32) : UInt32 := req &&& ~~~ccHdrAuthorization

variable {mask req : UInt32}

lemma ccAny_withoutAuthorization (req : UInt32) (h : ~~~ccHdrAuthorization &&& mask = mask) :
    ccAny (withoutAuthorization req) mask = ccAny req mask := by
  rw [ccAny, ccAny, withoutAuthorization, UInt32.and_assoc, h]

lemma withoutAuthorization_authorization :
    ccAny (withoutAuthorization req) ccHdrAuthorization = false := by
  have hnone : ~~~ccHdrAuthorization &&& ccHdrAuthorization = 0 := by decide
  rw [ccAny, withoutAuthorization, UInt32.and_assoc, hnone, UInt32.and_zero]
  rfl

lemma employResp_eq (req resp : UInt32) (status : Nat) :
    employResp req resp status = (employResp (withoutAuthorization req) resp status &&
      !(ccAny req ccHdrAuthorization && !ccAny req ccRespAuthcan)) := by
  have hdont := ccAny_withoutAuthorization req (show _ &&& ccReqDontcache = _ by decide)
  have hpresent := ccAny_withoutAuthorization req (show _ &&& ccIsPresent = _ by decide)
  have hpragma := ccAny_withoutAuthorization req (show _ &&& ccPragmaNoCache = _ by decide)
  rw [employResp, employResp, hdont, hpresent, hpragma, withoutAuthorization_authorization]
  cases ccAny req ccHdrAuthorization && !ccAny req ccRespAuthcan with
  | false => rw [Bool.not_false, Bool.and_true, Bool.false_and]
  | true =>
    rw [Bool.not_true, Bool.and_false, if_pos rfl]
    split_ifs <;> rfl

/-- A response to a request with the header is stored only with a directive that allows it, and
with such a directive the header does not keep it from being stored. -/
def AuthorizedShared (req resp : UInt32) (status : Nat) : Prop :=
  (employResp req resp status = true → ccAny resp ccRespAuthcan = true) ∧
    (ccAny resp ccRespAuthcan = true →
      employResp req resp status = employResp (withoutAuthorization req) resp status)

/-- This is so exactly if the response is not to be stored anyway or the request has such a
directive where the response has. -/
theorem authorizedShared_iff {req : UInt32} (hauth : ccAny req ccHdrAuthorization = true)
    (resp : UInt32) (status : Nat) :
    AuthorizedShared req resp status ↔
      employResp (withoutAuthorization req) resp status = false ∨
        ccAny req ccRespAuthcan = ccAny resp ccRespAuthcan := by
  rw [AuthorizedShared, employResp_eq req, hauth]
  cases employResp (withoutAuthorization req) resp status with
  | false => simp
  | true =>
    cases ccAny req ccRespAuthcan with
    | false => simp
    | true => simp

theorem authorizedShared_maxAge : AuthorizedShared ccHdrAuthorization ccMaxAge 200 :=
  (authorizedShared_iff (by decide) _ _).mpr (.inr (by decide))

/-- `Cache-Control: public, max-age=60` for a request with the header: the response is
not stored. -/
theorem public_ignored :
    ¬ AuthorizedShared ccHdrAuthorization (ccPublic ||| ccMaxAge) 200 ∧
      employResp ccHdrAuthorization (ccPublic ||| ccMaxAge) 200 = false ∧
      employResp 0 (ccPublic ||| ccMaxAge) 200 = true := by
  refine ⟨fun h => ?_, by decide, by decide⟩
  exact absurd (h.2 (by decide)) (by decide)

end Tempesta.Cache
