import Mathlib.Tactic.NormNum
import SmolNas.App.Login

/-! Guesses at the administrator's password over many login requests, one after the
other. One key of the throttle serves the administrator and the system account whose
name is the same up to letter case. -/

namespace SmolNas.App

open Py Lib

/-- A request to `login`, and when it gets to the administrator's credentials. -/
structure LoginVisit where
  request : Request
  circumstances : Circumstances
  session : Session
  compared : Rat

namespace LoginVisit

variable (db : CharData) (env : Env)

def username (v : LoginVisit) : Str := v.request.username.getD []

def password (v : LoginVisit) : Str := v.request.password.getD []

def source (v : LoginVisit) : Str := orElse (v.request.remoteAddr.getD []) "unknown".toList

def key (v : LoginVisit) : AttemptKey := (db.lower v.username, v.source)

def result (attempts : Attempts) (v : LoginVisit) : LoginResult :=
  login db env v.request v.circumstances attempts v.session

def compares (attempts : Attempts) (v : LoginVisit) : Bool :=
  !v.session.isAuthenticated && v.request.method == .post && loginNameRe.fullmatch v.username &&
    !(isLoginLocked v.circumstances.now (v.key db) attempts).1 && v.username == env.nasUser

end LoginVisit

structure VisitRecord where
  visit : LoginVisit
  compares : Bool
  succeeded : Option (Str × Str)

def loginTrace (db : CharData) (env : Env) : Attempts → List LoginVisit → List VisitRecord
  | _, [] => []
  | attempts, v :: visits =>
      let result := v.result db env attempts
      ⟨v, v.compares db env attempts, result.succeeded⟩ ::
        loginTrace db env result.attempts visits

namespace VisitRecord

def inWindow (a : Rat) (r : VisitRecord) : Bool :=
  a ≤ r.visit.compared && r.visit.compared < a + loginWindowSeconds

def isWrongGuess (env : Env) (source : Str) (r : VisitRecord) : Bool :=
  r.compares && r.visit.source == source && r.visit.password != env.nasPassword

/-- The login succeeded from this address, under the administrator's name up to letter
case. -/
def succeedsAsAdmin (db : CharData) (env : Env) (source : Str) (r : VisitRecord) : Bool :=
  r.visit.source == source && r.succeeded.any fun c => db.lower c.1 == db.lower env.nasUser

end VisitRecord

def wrongGuesses (env : Env) (source : Str) (a : Rat) (trace : List VisitRecord) : Nat :=
  trace.countP fun r => r.inWindow a && r.isWrongGuess env source

/-- The clock does not run backwards, and each request ends before the next begins. -/
def OneAtATime (visits : List LoginVisit) : Prop :=
  (∀ v ∈ visits, v.circumstances.now ≤ v.compared ∧ v.compared ≤ v.circumstances.later) ∧
    visits.Pairwise fun v w => v.circumstances.later ≤ w.circumstances.now

instance (visits : List LoginVisit) : Decidable (OneAtATime visits) :=
  inferInstanceAs (Decidable (_ ∧ _))

inductive Attempted (db : CharData) (env : Env) (attempts : Attempts) (v : LoginVisit) :
    Attempts → Option (Str × Str) → Bool → Prop where
  | nothing : Attempted db env attempts v attempts none false
  | locked : Attempted db env attempts v
      (isLoginLocked v.circumstances.now (v.key db) attempts).2 none false
  | cleared : Attempted db env attempts v
      (clearLoginFailures (v.key db) (isLoginLocked v.circumstances.now (v.key db) attempts).2)
      (some (v.username, v.password)) (v.username == env.nasUser)
  | recorded :
      (isLoginLocked v.circumstances.now (v.key db) attempts).1 = false →
      Attempted db env attempts v
        (recordLoginFailure v.circumstances.later (v.key db)
          (isLoginLocked v.circumstances.now (v.key db) attempts).2)
        none (v.username == env.nasUser)

theorem visit_attempted (db : CharData) (env : Env) (attempts : Attempts) (v : LoginVisit) :
    Attempted db env attempts v (v.result db env attempts).attempts
      (v.result db env attempts).succeeded (v.compares db env attempts) := by
  unfold LoginVisit.result login
  split
  next user =>
    have compares : v.compares db env attempts = false := by simp [LoginVisit.compares, user]
    rw [compares]
    exact .nothing
  next guest =>
    split
    next get =>
      have compares : v.compares db env attempts = false := by
        rw [LoginVisit.compares, get]
        cases v.session.isAuthenticated <;> rfl
      rw [compares]
      exact .nothing
    next other =>
      have post : v.request.method = .post := by
        cases method : v.request.method with
        | get => exact absurd method other
        | post => rfl
      dsimp only
      split
      next odd =>
        have compares : v.compares db env attempts = false := by
          have unnamed : loginNameRe.fullmatch v.username = false := odd
          simp [LoginVisit.compares, unnamed]
        rw [compares]
        exact .nothing
      next likely =>
        split
        next locked =>
          have compares : v.compares db env attempts = false := by
            have full : (isLoginLocked v.circumstances.now (v.key db) attempts).1 = true := locked
            simp [LoginVisit.compares, full]
          rw [compares]
          exact .locked
        next unlocked =>
          have named : loginNameRe.fullmatch v.username = true :=
            Bool.of_not_eq_false likely
          have free : (isLoginLocked v.circumstances.now (v.key db) attempts).1 = false :=
            Bool.of_not_eq_true unlocked
          have compares : v.compares db env attempts = (v.username == env.nasUser) := by
            simp [LoginVisit.compares, guest, post, named, free]
          rw [compares]
          split
          · exact .cleared
          · split
            · exact .cleared
            · exact .recorded free

section Guesses

variable {db : CharData} {env : Env} {source : Str} {a : Rat}

def adminKey (db : CharData) (env : Env) (source : Str) : AttemptKey :=
  (db.lower env.nasUser, source)

theorem guess_step {attempts next : Attempts} {v : LoginVisit} {succeeded : Option (Str × Str)}
    {compares : Bool} {n : Nat} (attempted : Attempted db env attempts v next succeeded compares)
    (order : v.circumstances.now ≤ v.compared ∧ v.compared ≤ v.circumstances.later)
    (inside : a ≤ v.compared ∧ v.compared < a + loginWindowSeconds)
    (outside : VisitRecord.succeedsAsAdmin db env source ⟨v, compares, succeeded⟩ = false)
    (small : n ≤ loginMaxAttempts)
    (known : n ≤ Window.countFrom a (attempts (adminKey db env source))) :
    let guesses := if VisitRecord.isWrongGuess env source ⟨v, compares, succeeded⟩ then n + 1 else n
    guesses ≤ loginMaxAttempts ∧ (v.circumstances.later < a + loginWindowSeconds →
      guesses ≤ Window.countFrom a (next (adminKey db env source))) := by
  have started : v.circumstances.now < a + loginWindowSeconds := lt_of_le_of_lt order.1 inside.2
  cases attempted with
  | nothing => exact ⟨small, fun _ => known⟩
  | locked =>
      refine ⟨small, fun _ => ?_⟩
      rw [isLoginLocked_countFrom _ started]
      exact known
  | cleared =>
      have other : adminKey db env source ≠ v.key db := by
        intro same
        have both := Prod.mk.inj same
        simp [VisitRecord.succeedsAsAdmin, both.1, both.2] at outside
      have guess : VisitRecord.isWrongGuess env source
          ⟨v, v.username == env.nasUser, some (v.username, v.password)⟩ = false := by
        rw [← Bool.not_eq_true]
        intro wrong
        simp [VisitRecord.isWrongGuess] at wrong
        apply other
        rw [adminKey, LoginVisit.key, wrong.1.1, wrong.1.2]
      rw [guess]
      refine ⟨small, fun _ => ?_⟩
      rw [clearLoginFailures_table, if_neg other, isLoginLocked_countFrom _ started]
      exact known
  | recorded unlocked =>
      by_cases own : adminKey db env source = v.key db
      · have room := countFrom_lt_of_unlocked started unlocked
        rw [← own] at room
        have bound : (if VisitRecord.isWrongGuess env source
            ⟨v, v.username == env.nasUser, none⟩ then n + 1 else n) ≤ n + 1 := by
          split <;> omega
        refine ⟨by omega, fun finished => ?_⟩
        rw [recordLoginFailure_countFrom _ finished (le_trans inside.1 order.2), if_pos own,
          isLoginLocked_countFrom _ started]
        omega
      · have guess : VisitRecord.isWrongGuess env source
            ⟨v, v.username == env.nasUser, none⟩ = false := by
          rw [← Bool.not_eq_true]
          intro wrong
          simp [VisitRecord.isWrongGuess] at wrong
          apply own
          rw [adminKey, LoginVisit.key, wrong.1.1, wrong.1.2]
        rw [guess]
        refine ⟨small, fun finished => ?_⟩
        rw [recordLoginFailure_countFrom _ finished (le_trans inside.1 order.2), if_neg own,
          isLoginLocked_countFrom _ started]
        exact known

theorem guesses_run (visits : List LoginVisit) (attempts : Attempts) (n : Nat)
    (ordered : OneAtATime visits)
    (outside : ∀ r ∈ loginTrace db env attempts visits, r.inWindow a = true →
      r.succeedsAsAdmin db env source = false)
    (small : n ≤ loginMaxAttempts)
    (known : ∀ v ∈ visits, v.compared < a + loginWindowSeconds →
      n ≤ Window.countFrom a (attempts (adminKey db env source)))
    (begun : 0 < n → ∀ v ∈ visits, a ≤ v.compared) :
    n + wrongGuesses env source a (loginTrace db env attempts visits) ≤ loginMaxAttempts := by
  induction visits generalizing attempts n with
  | nil => exact small
  | cons v visits ih =>
      have order := ordered.1 v (by simp)
      have later := List.pairwise_cons.mp ordered.2
      have rest : OneAtATime visits := ⟨fun w member => ordered.1 w (by simp [member]), later.2⟩
      have after : ∀ w ∈ visits, v.circumstances.later ≤ w.compared := fun w member =>
        le_trans (later.1 w member) (rest.1 w member).1
      have outside_rest : ∀ r ∈ loginTrace db env (v.result db env attempts).attempts visits,
          r.inWindow a = true → r.succeedsAsAdmin db env source = false := by
        intro r member
        exact outside r (List.mem_cons_of_mem _ member)
      rw [loginTrace, wrongGuesses, List.countP_cons]
      by_cases inside : a ≤ v.compared ∧ v.compared < a + loginWindowSeconds
      · have window : VisitRecord.inWindow a ⟨v, v.compares db env attempts,
            (v.result db env attempts).succeeded⟩ = true := by
          simp [VisitRecord.inWindow, inside]
        have step := guess_step (visit_attempted db env attempts v) order inside
          (outside _ List.mem_cons_self window) small (known v (by simp) inside.2)
        have total := ih (v.result db env attempts).attempts _ rest outside_rest step.1
          (fun w member early => step.2 (lt_of_le_of_lt (after w member) early))
          (fun _ w member => le_trans (le_trans inside.1 order.2) (after w member))
        rw [wrongGuesses] at total
        rw [window, Bool.true_and]
        split at total
        next guess =>
          rw [if_pos guess]
          omega
        next guess =>
          rw [if_neg guess]
          omega
      · have window : VisitRecord.inWindow a ⟨v, v.compares db env attempts,
            (v.result db env attempts).succeeded⟩ = false := by
          rw [← Bool.not_eq_true]
          intro both
          exact inside (by simpa [VisitRecord.inWindow] using both)
        rw [window]
        apply ih (v.result db env attempts).attempts n rest outside_rest small
        · intro w member early
          have ended : v.compared < a + loginWindowSeconds :=
            lt_of_le_of_lt (le_trans order.2 (after w member)) early
          have none : n = 0 := by
            by_contra some
            exact inside ⟨begun (Nat.pos_of_ne_zero some) v (by simp), ended⟩
          rw [none]
          exact Nat.zero_le _
        · intro some w member
          exact begun some w (by simp [member])

end Guesses

/-- In any window in which nobody logs in under the administrator's name, in whatever
letter case, at most five wrong passwords are tried on it. -/
theorem guesses_bounded (db : CharData) (env : Env) (source : Str) (attempts : Attempts)
    (visits : List LoginVisit) (ordered : OneAtATime visits) (a : Rat)
    (outside : ∀ r ∈ loginTrace db env attempts visits, r.inWindow a = true →
      r.succeedsAsAdmin db env source = false) :
    wrongGuesses env source a (loginTrace db env attempts visits) ≤ loginMaxAttempts := by
  have bound := guesses_run visits attempts 0 ordered outside (Nat.zero_le _)
    (fun _ _ _ => Nat.zero_le _) (fun some => absurd some (lt_irrefl 0))
  rw [Nat.zero_add] at bound
  exact bound

def devLogin (password : Str) (time : Rat) (returncode : Int) : LoginVisit :=
  ⟨⟨.login, .post, some "token".toList, false, none, some "10.0.0.5".toList, some "dev".toList,
      some password⟩,
    ⟨time, time, .completed returncode [] [], "token".toList, [], true⟩, Session.empty, time⟩

/-- Four guesses, a login to the system account of the same name, and four more guesses. -/
def guessesAroundLogin : List LoginVisit :=
  List.replicate 4 (devLogin "guess".toList 0 5) ++ [devLogin "linux".toList 1 0] ++
    List.replicate 4 (devLogin "guess".toList 2 5)

theorem guesses_around_system_login : ¬∀ (db : CharData) (env : Env) (source : Str)
    (visits : List LoginVisit), OneAtATime visits → (∀ v ∈ visits, v.source = source) → ∀ a,
      (∀ r ∈ loginTrace db env (fun _ => []) visits, r.inWindow a = true →
        r.succeeded ≠ some (env.nasUser, env.nasPassword)) →
      wrongGuesses env source a (loginTrace db env (fun _ => []) visits) ≤ loginMaxAttempts := by
  intro all
  have bounded := all .ascii exampleEnv "10.0.0.5".toList guessesAroundLogin
    (by decide +kernel) (by decide +kernel) 0 (by decide +kernel)
  revert bounded
  decide +kernel

theorem guesses_bounded_six :
    wrongGuesses exampleEnv "10.0.0.5".toList 0
      (loginTrace .ascii exampleEnv (fun _ => [])
        (List.replicate 6 (devLogin "guess".toList 0 5))) ≤ loginMaxAttempts :=
  guesses_bounded .ascii exampleEnv _ _ _ (by decide +kernel) 0 (by decide +kernel)

end SmolNas.App
