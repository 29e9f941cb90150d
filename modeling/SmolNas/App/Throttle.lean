import Mathlib.Data.Rat.Init
import Mathlib.Algebra.Order.Field.Rat
import SmolNas.Lib.Window
import SmolNas.Py.Str

/-! The login throttle: recent failures for each pair of user name and address. -/

namespace SmolNas.App

open Py Lib

abbrev AttemptKey := Str × Str

/-- `_LOGIN_ATTEMPTS`; a key that is missing reads as no failures. -/
abbrev Attempts := AttemptKey → List Rat

def loginMaxAttempts : Nat := 5

def loginWindowSeconds : Rat := 600

def recentFailures (now : Rat) (times : List Rat) : List Rat :=
  times.filter fun t => now - t < loginWindowSeconds

/-- `_is_login_locked(key)` at time `now`. -/
def isLoginLocked (now : Rat) (key : AttemptKey) (attempts : Attempts) : Bool × Attempts :=
  let recent := recentFailures now (attempts key)
  (decide (loginMaxAttempts ≤ recent.length), Function.update attempts key recent)

/-- `_record_login_failure(key)` at time `now`. -/
def recordLoginFailure (now : Rat) (key : AttemptKey) (attempts : Attempts) : Attempts :=
  Function.update attempts key (recentFailures now (attempts key) ++ [now])

/-- `_clear_login_failures(key)` -/
def clearLoginFailures (key : AttemptKey) (attempts : Attempts) : Attempts :=
  Function.update attempts key []

section Table

variable (now : Rat) (own key : AttemptKey) (attempts : Attempts)

theorem isLoginLocked_table : (isLoginLocked now own attempts).2 key =
    if key = own then recentFailures now (attempts key) else attempts key := by
  by_cases same : key = own
  · subst same
    simp [isLoginLocked]
  · simp [isLoginLocked, same]

theorem recordLoginFailure_table : recordLoginFailure now own attempts key =
    if key = own then recentFailures now (attempts key) ++ [now] else attempts key := by
  by_cases same : key = own
  · subst same
    simp [recordLoginFailure]
  · simp [recordLoginFailure, same]

theorem clearLoginFailures_table : clearLoginFailures own attempts key =
    if key = own then [] else attempts key := by
  by_cases same : key = own
  · subst same
    simp [clearLoginFailures]
  · simp [clearLoginFailures, same]

variable {now key attempts} {a : Rat}

theorem isLoginLocked_countFrom (inside : now < a + loginWindowSeconds) :
    Window.countFrom a ((isLoginLocked now own attempts).2 key) =
      Window.countFrom a (attempts key) := by
  rw [isLoginLocked_table]
  split
  · exact Window.countFrom_recent inside (attempts key)
  · rfl

theorem recordLoginFailure_countFrom (inside : now < a + loginWindowSeconds) (start : a ≤ now) :
    Window.countFrom a (recordLoginFailure now own attempts key) =
      Window.countFrom a (attempts key) + if key = own then 1 else 0 := by
  rw [recordLoginFailure_table]
  split
  · have kept : Window.countFrom a (recentFailures now (attempts key)) =
      Window.countFrom a (attempts key) := Window.countFrom_recent inside (attempts key)
    rw [Window.countFrom_concat, kept, if_pos start]
  · rfl

theorem countFrom_lt_of_unlocked (inside : now < a + loginWindowSeconds)
    (unlocked : (isLoginLocked now key attempts).1 = false) :
    Window.countFrom a (attempts key) < loginMaxAttempts := by
  have few : (recentFailures now (attempts key)).length < loginMaxAttempts := by
    simpa [isLoginLocked] using unlocked
  exact lt_of_le_of_lt (Window.countFrom_le_recent inside (attempts key)) few

end Table

end SmolNas.App
