import SmolNas.App.Session

/-! What `csrf_protect` answers to a POST request, for every token a client can send. -/

namespace SmolNas.App

open Py

section Gate

inductive CsrfResponse where
  | toView
  | json (status : Nat) (error : Str)
  | redirect (message location : Str)
  | exception
  deriving DecidableEq, Repr

/-- `request.referrer or url_for('login')` -/
def backToReferrer (referrer : Option Str) : Str :=
  if referrer.getD [] = [] then "/login".toList else referrer.getD []

def CsrfAnswer.response (referrer : Option Str) : CsrfAnswer → CsrfResponse
  | .pass => .toView
  | .forbidden =>
      .json 403 "CSRF token missing or invalid. Reload the page and try again.".toList
  | .redirect =>
      .redirect "Security check failed: invalid or missing CSRF token. Please try again.".toList
        (backToReferrer referrer)
  | .raised => .exception

def csrfResponse (s : Session) (r : Request) (referrer : Option Str) : CsrfResponse :=
  (csrfProtect s r).response referrer

/-- The answer to a request whose token is not the one of the session. -/
def csrfRejection (r : Request) (referrer : Option Str) : CsrfResponse :=
  (if r.endpoint.isApi then CsrfAnswer.forbidden else .redirect).response referrer

def HasToken (s : Session) (r : Request) : Prop :=
  s.csrfToken.getD [] ≠ [] ∧ s.csrfToken.getD [] = requestToken r

/-- A request reaches its view with the token of the session, and is rejected without it. -/
structure GateExact (s : Session) (r : Request) (referrer : Option Str) : Prop where
  reaches : csrfResponse s r referrer = .toView ↔ HasToken s r
  rejects : ¬HasToken s r → csrfResponse s r referrer = csrfRejection r referrer

def isAscii (s : Str) : Bool := s.all fun c => c.toNat < 128

variable {s : Session} {r : Request} (referrer : Option Str)

theorem csrfRejection_ne : csrfRejection r referrer ≠ .toView := by
  unfold csrfRejection
  split
  next => exact CsrfResponse.noConfusion
  next => exact CsrfResponse.noConfusion

theorem csrfResponse_empty (post : r.method = .post)
    (empty : s.csrfToken.getD [] = [] ∨ requestToken r = []) :
    csrfResponse s r referrer = csrfRejection r referrer := by
  rw [csrfResponse, csrfProtect, post, if_neg (by decide)]
  dsimp only
  rw [if_pos empty]
  rfl

theorem csrfResponse_compared (post : r.method = .post)
    (both : ¬(s.csrfToken.getD [] = [] ∨ requestToken r = [])) :
    csrfResponse s r referrer =
      if isAscii (s.csrfToken.getD [] ++ requestToken r) then
        if s.csrfToken.getD [] = requestToken r then .toView else csrfRejection r referrer
      else .exception := by
  rw [csrfResponse, csrfProtect, post, if_neg (by decide)]
  dsimp only
  rw [if_neg both, compareDigest]
  by_cases ascii : isAscii (s.csrfToken.getD [] ++ requestToken r) = true
  · rw [if_pos ascii, if_pos (show List.all _ _ = true from ascii)]
    by_cases equal : s.csrfToken.getD [] = requestToken r
    · rw [if_pos equal, beq_iff_eq.mpr equal]
      rfl
    · rw [if_neg equal, beq_eq_false_iff_ne.mpr equal]
      rfl
  · rw [if_neg ascii, if_neg (show ¬List.all _ _ = true from ascii)]
    rfl

end Gate

/-- The gate is exact unless both tokens are there and one of them has a character outside
ASCII, which `compare_digest` does not take. -/
theorem csrf_gate_iff (s : Session) (r : Request) (referrer : Option Str)
    (post : r.method = .post) :
    GateExact s r referrer ↔
      s.csrfToken.getD [] = [] ∨ requestToken r = [] ∨
        isAscii (s.csrfToken.getD [] ++ requestToken r) = true := by
  rw [← or_assoc]
  by_cases empty : s.csrfToken.getD [] = [] ∨ requestToken r = []
  · have answer := csrfResponse_empty referrer post empty
    have without : ¬HasToken s r := by
      rintro ⟨some, equal⟩
      rcases empty with none | none
      · exact some none
      · exact some (equal.trans none)
    refine iff_of_true ⟨?_, fun _ => answer⟩ (.inl empty)
    rw [answer]
    exact iff_of_false (csrfRejection_ne referrer) without
  · have answer := csrfResponse_compared referrer post empty
    have holds : HasToken s r ↔ s.csrfToken.getD [] = requestToken r := by
      rw [not_or] at empty
      exact and_iff_right empty.1
    by_cases ascii : isAscii (s.csrfToken.getD [] ++ requestToken r) = true
    · rw [if_pos ascii] at answer
      refine iff_of_true ⟨?_, ?_⟩ (.inr ascii)
      · rw [answer, holds]
        split
        next equal => exact iff_of_true rfl equal
        next other => exact iff_of_false (csrfRejection_ne referrer) other
      · intro without
        rw [holds] at without
        rw [answer, if_neg without]
    · rw [if_neg ascii] at answer
      refine iff_of_false ?_ (not_or.mpr ⟨empty, ascii⟩)
      intro gate
      by_cases own : HasToken s r
      · have passed := gate.reaches.mpr own
        rw [answer] at passed
        cases passed
      · have rejected := gate.rejects own
        rw [answer, csrfRejection] at rejected
        split at rejected
        next => cases rejected
        next => cases rejected

def postedToken (token : Str) : Request :=
  ⟨.login, .post, some token, false, none, none, none, none⟩

def tokenSession : Session := ⟨none, none, some "0a1b".toList, []⟩

theorem csrf_gate_other_token :
    csrfResponse tokenSession (postedToken "0a1c".toList) none =
      csrfRejection (postedToken "0a1c".toList) none :=
  ((csrf_gate_iff tokenSession (postedToken "0a1c".toList) none rfl).mpr
    (.inr (.inr rfl))).rejects (by unfold HasToken; decide)

/-- A token that no form of the application holds makes the comparison raise. -/
theorem accented_token_raises : ¬∀ (s : Session) (r : Request) (referrer : Option Str),
    r.method = .post → GateExact s r referrer := by
  intro all
  have gate := all tokenSession (postedToken "é".toList) none rfl
  have rejected := gate.rejects (by unfold HasToken; decide)
  revert rejected
  decide

end SmolNas.App
