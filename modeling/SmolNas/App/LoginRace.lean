import Mathlib.Data.Fintype.Card
import SmolNas.App.Throttle

/-! Login requests at the same time: each of them checks the throttle, verifies the
password and then records the failure or clears the key, in steps of their own. -/

namespace SmolNas.App

inductive LoginPhase where
  | arrived
  | checked
  | verified (time : Rat) (valid : Bool)
  | done
  deriving DecidableEq, Repr

namespace LoginPhase

def isPending : LoginPhase → Bool
  | checked => true
  | verified _ _ => true
  | _ => false

/-- A failure in the window from `a` on that is not recorded yet. -/
def isUnrecorded (a : Rat) : LoginPhase → Bool
  | verified time false => a ≤ time && time < a + loginWindowSeconds
  | _ => false

end LoginPhase

inductive LoginEntry where
  | verification (key : AttemptKey) (time : Rat) (valid : Bool)
  | cleared (key : AttemptKey) (time : Rat)
  deriving DecidableEq, Repr

/-- One step of a request; `valid` is the result of the verification, if the step
is one. -/
structure LoginEvent (k : Nat) where
  now : Rat
  request : Fin k
  valid : Bool

structure LoginState (k : Nat) where
  attempts : Attempts
  phase : Fin k → LoginPhase
  /-- The verifications and the successful logins so far. -/
  log : List LoginEntry

namespace LoginState

variable {k : Nat} (keys : Fin k → AttemptKey)

def step (s : LoginState k) (e : LoginEvent k) : LoginState k :=
  let key := keys e.request
  let enter := Function.update s.phase e.request
  match s.phase e.request with
  | .arrived =>
      let (locked, attempts) := isLoginLocked e.now key s.attempts
      { s with attempts := attempts, phase := enter (if locked then .done else .checked) }
  | .checked =>
      { s with
        phase := enter (.verified e.now e.valid)
        log := s.log ++ [.verification key e.now e.valid] }
  | .verified _ false =>
      { s with attempts := recordLoginFailure e.now key s.attempts, phase := enter .done }
  | .verified _ true =>
      { attempts := clearLoginFailures key s.attempts
        phase := enter .done
        log := s.log ++ [.cleared key e.now] }
  | .done => s

def run (s : LoginState k) (events : List (LoginEvent k)) : LoginState k :=
  events.foldl (step keys) s

/-- The requests of a key in a phase of this kind. -/
def tally (key : AttemptKey) (p : LoginPhase → Bool) (s : LoginState k) : Nat :=
  (Finset.univ.filter fun i => keys i = key ∧ p (s.phase i) = true).card

/-- A request passes the check only while the failures that count for its key and
the requests of the key still in flight are fewer than the limit. -/
def Admits (s : LoginState k) (e : LoginEvent k) : Prop :=
  let key := keys e.request
  s.phase e.request = .arrived → (isLoginLocked e.now key s.attempts).1 = false →
    (recentFailures e.now (s.attempts key)).length + s.tally keys key LoginPhase.isPending <
      loginMaxAttempts

def AdmitsAlong : LoginState k → List (LoginEvent k) → Prop
  | _, [] => True
  | s, e :: events => s.Admits keys e ∧ (s.step keys e).AdmitsAlong events

instance (s : LoginState k) (e : LoginEvent k) : Decidable (s.Admits keys e) :=
  inferInstanceAs (Decidable (_ → _ → _ < _))

instance decidableAdmitsAlong : (s : LoginState k) → (events : List (LoginEvent k)) →
    Decidable (s.AdmitsAlong keys events)
  | _, [] => isTrue trivial
  | s, e :: events =>
      have := decidableAdmitsAlong (s.step keys e) events
      inferInstanceAs (Decidable (_ ∧ _))

def start (attempts : Attempts) : LoginState k := ⟨attempts, fun _ => .arrived, []⟩

end LoginState

/-- A failed verification for the key in the window from `a` on. -/
def LoginEntry.failsIn (key : AttemptKey) (a : Rat) : LoginEntry → Bool
  | verification own time false => own == key && (a ≤ time && time < a + loginWindowSeconds)
  | _ => false

/-- In every window without a successful login for a key, at most five verifications
for it fail. -/
def FailuresBounded (log : List LoginEntry) : Prop :=
  ∀ key a, (∀ time, .cleared key time ∈ log → ¬(a ≤ time ∧ time < a + loginWindowSeconds)) →
    log.countP (·.failsIn key a) ≤ loginMaxAttempts

def sixAtOnce : List (LoginEvent 6) :=
  (List.finRange 6).map (⟨0, ·, false⟩) ++ (List.finRange 6).map (⟨1, ·, false⟩)

/-- All six pass the check before the first of them fails. -/
theorem six_failures_at_once : ¬∀ (k : Nat) (keys : Fin k → AttemptKey)
    (events : List (LoginEvent k)), events.Pairwise (fun d e => d.now ≤ e.now) →
      FailuresBounded (LoginState.run keys (LoginState.start fun _ => []) events).log := by
  intro all
  have log : (LoginState.run (fun _ => ([], [])) (LoginState.start fun _ => []) sixAtOnce).log =
      List.replicate 6 (.verification ([], []) 1 false) := by decide +kernel
  have bounded := all 6 (fun _ => ([], [])) sixAtOnce (by decide +kernel) ([], []) 0
  rw [log] at bounded
  have few := bounded fun time member => by simp at member
  revert few
  decide +kernel

end SmolNas.App
