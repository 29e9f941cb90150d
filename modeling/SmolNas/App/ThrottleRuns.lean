import Mathlib.Data.List.DropRight
import Mathlib.Tactic.NormNum
import SmolNas.App.Throttle
import SmolNas.Lib.Window

/-! The login throttle along any sequence of calls, against the failures that were
recorded: what the calls forget is never missed. -/

namespace SmolNas.App

open Py Lib

inductive ThrottleCall where
  | isLoginLocked (key : AttemptKey)
  | recordLoginFailure (key : AttemptKey)
  | clearLoginFailures (key : AttemptKey)
  deriving DecidableEq, Repr

structure TimedCall where
  now : Rat
  call : ThrottleCall
  deriving DecidableEq, Repr

namespace TimedCall

def apply (attempts : Attempts) (c : TimedCall) : Attempts :=
  match c.call with
  | .isLoginLocked key => (isLoginLocked c.now key attempts).2
  | .recordLoginFailure key => recordLoginFailure c.now key attempts
  | .clearLoginFailures key => clearLoginFailures key attempts

def clears (key : AttemptKey) (c : TimedCall) : Bool := c.call == .clearLoginFailures key

def failure (key : AttemptKey) (c : TimedCall) : Option Rat :=
  if c.call = .recordLoginFailure key then some c.now else none

end TimedCall

def runCalls (calls : List TimedCall) : Attempts := calls.foldl TimedCall.apply fun _ => []

/-- The clock does not run backwards. -/
def InOrder (calls : List TimedCall) : Prop := calls.Pairwise fun a b => a.now ≤ b.now

/-- The failures of a key after its last clear, in full. -/
def failuresSinceClear (key : AttemptKey) (calls : List TimedCall) : List Rat :=
  (calls.rtakeWhile (!·.clears key)).filterMap (TimedCall.failure key)

section Spec

variable {key : AttemptKey}

theorem runCalls_concat (calls : List TimedCall) (c : TimedCall) :
    runCalls (calls ++ [c]) = c.apply (runCalls calls) := by
  rw [runCalls, List.foldl_append]
  rfl

theorem failures_clear {c : TimedCall} (clear : c.clears key = true) (calls : List TimedCall) :
    failuresSinceClear key (calls ++ [c]) = [] := by
  rw [failuresSinceClear, List.rtakeWhile_concat_neg _ _ _ (by simp [clear])]
  rfl

theorem failures_other {c : TimedCall} (other : c.clears key = false) (calls : List TimedCall) :
    failuresSinceClear key (calls ++ [c]) =
      failuresSinceClear key calls ++ (c.failure key).toList := by
  rw [failuresSinceClear, List.rtakeWhile_concat_pos _ _ _ (by simp [other]),
    List.filterMap_append, failuresSinceClear]
  cases found : c.failure key <;> simp [found]

theorem agree_apply {attempts : Attempts} {calls : List TimedCall} {c : TimedCall}
    (agree : ∀ key, Window.AgreeFrom loginWindowSeconds c.now (attempts key)
      (failuresSinceClear key calls)) (key : AttemptKey) :
    Window.AgreeFrom loginWindowSeconds c.now (c.apply attempts key)
      (failuresSinceClear key (calls ++ [c])) := by
  rcases c with ⟨now, call⟩
  cases call with
  | isLoginLocked own =>
      have none : TimedCall.failure key ⟨now, .isLoginLocked own⟩ = none := rfl
      rw [failures_other rfl, none, Option.toList_none, List.append_nil]
      change Window.AgreeFrom _ now ((isLoginLocked now own attempts).2 key) _
      rw [isLoginLocked_table]
      split
      · exact Window.agree_recent (agree key)
      · exact agree key
  | recordLoginFailure own =>
      rw [failures_other rfl]
      change Window.AgreeFrom _ now (recordLoginFailure now own attempts key) _
      rw [recordLoginFailure_table]
      by_cases same : key = own
      · have time : TimedCall.failure key ⟨now, .recordLoginFailure own⟩ = some now := by
          simp [TimedCall.failure, same]
        rw [if_pos same, time]
        exact Window.agree_concat (Window.agree_recent (agree key)) now
      · have none : TimedCall.failure key ⟨now, .recordLoginFailure own⟩ = none := by
          simp [TimedCall.failure, Ne.symm same]
        rw [if_neg same, none, Option.toList_none, List.append_nil]
        exact agree key
  | clearLoginFailures own =>
      change Window.AgreeFrom _ now (clearLoginFailures own attempts key) _
      rw [clearLoginFailures_table]
      by_cases same : key = own
      · rw [if_pos same, failures_clear (by simp [TimedCall.clears, same])]
        exact Window.agree_refl _ _ _
      · have none : TimedCall.failure key ⟨now, .clearLoginFailures own⟩ = none := rfl
        rw [if_neg same, failures_other (by simp [TimedCall.clears, Ne.symm same]), none,
          Option.toList_none, List.append_nil]
        exact agree key

theorem agree_run (calls : List TimedCall) (ordered : InOrder calls) {now : Rat}
    (latest : ∀ c ∈ calls, c.now ≤ now) (key : AttemptKey) :
    Window.AgreeFrom loginWindowSeconds now (runCalls calls key) (failuresSinceClear key calls) := by
  induction calls using List.reverseRecOn generalizing now key with
  | nil => exact Window.agree_refl _ _ _
  | append_singleton calls c ih =>
      have order := List.pairwise_append.mp ordered
      have before : ∀ d ∈ calls, d.now ≤ c.now := fun d member => order.2.2 d member c (by simp)
      rw [runCalls_concat]
      have next := agree_apply (fun key => ih order.1 before key) key
      exact Window.agree_later next (latest c (by simp))

theorem lock_answer_exact (before after : List TimedCall) (now : Rat) (key : AttemptKey)
    (ordered : InOrder (before ++ ⟨now, .isLoginLocked key⟩ :: after)) :
    (isLoginLocked now key (runCalls before)).1 = true ↔
      loginMaxAttempts ≤
        ((failuresSinceClear key before).filter (fun t => now - t < loginWindowSeconds)).length := by
  have order := List.pairwise_append.mp ordered
  have latest : ∀ c ∈ before, c.now ≤ now :=
    fun c member => order.2.2 c member ⟨now, .isLoginLocked key⟩ (by simp)
  have agree := agree_run before order.1 latest key
  have same := agree now (le_refl now)
  rw [isLoginLocked, decide_eq_true_eq]
  change loginMaxAttempts ≤ (Window.recent loginWindowSeconds now (runCalls before key)).length ↔ _
  rw [same]
  rfl

end Spec

def fiveFailures (key : AttemptKey) : List TimedCall :=
  List.replicate 5 ⟨0, .recordLoginFailure key⟩

theorem lock_answer_exact_five :
    (isLoginLocked 599 ([], []) (runCalls (fiveFailures ([], [])))).1 = true ∧
      (isLoginLocked 600 ([], []) (runCalls (fiveFailures ([], [])))).1 = false := by
  have ordered (now : Rat) (later : 0 ≤ now) :
      InOrder (fiveFailures ([], []) ++ [⟨now, .isLoginLocked ([], [])⟩]) := by
    simp [InOrder, fiveFailures, List.replicate, later]
  constructor
  · rw [lock_answer_exact _ [] 599 ([], []) (ordered 599 (by norm_num))]
    decide +kernel
  · rw [← Bool.not_eq_true, lock_answer_exact _ [] 600 ([], []) (ordered 600 (by norm_num))]
    decide +kernel

end SmolNas.App
