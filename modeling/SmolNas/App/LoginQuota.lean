import Mathlib.Algebra.BigOperators.Group.Finset.Piecewise
import SmolNas.App.LoginRace

/-! The login requests in flight against the throttle's limit: while each request that
passes the check finds room for itself beside those still in flight, the limit holds. -/

namespace SmolNas.App

open Lib

section Tally

variable {k : Nat} {keys : Fin k → AttemptKey} {key : AttemptKey} {p : LoginPhase → Bool}
  {s t : LoginState k} {i : Fin k} {next : LoginPhase}

theorem tally_update (keys : Fin k → AttemptKey) (key : AttemptKey) (p : LoginPhase → Bool)
    (phases : t.phase = Function.update s.phase i next) :
    t.tally keys key p + (if keys i = key ∧ p (s.phase i) = true then 1 else 0) =
      s.tally keys key p + if keys i = key ∧ p next = true then 1 else 0 := by
  have others : ∀ j ∈ Finset.univ.erase i, (if keys j = key ∧ p (t.phase j) = true then 1 else 0) =
      if keys j = key ∧ p (s.phase j) = true then 1 else 0 := by
    intro j member
    rw [phases, Function.update_of_ne (Finset.ne_of_mem_erase member)]
  have own : t.phase i = next := by rw [phases, Function.update_self]
  rw [LoginState.tally, LoginState.tally, Finset.card_filter, Finset.card_filter,
    ← Finset.add_sum_erase _ _ (Finset.mem_univ i),
    ← Finset.add_sum_erase (Finset.univ : Finset (Fin k)) _ (Finset.mem_univ i),
    Finset.sum_congr rfl others, own]
  omega

theorem tally_split (q : LoginPhase → Bool) (within : ∀ phase, q phase = true → p phase = true) :
    s.tally keys key p = s.tally keys key q + s.tally keys key fun phase => p phase && !q phase := by
  rw [LoginState.tally, LoginState.tally, LoginState.tally, Finset.card_filter, Finset.card_filter,
    Finset.card_filter, ← Finset.sum_add_distrib]
  apply Finset.sum_congr rfl
  intro j _
  have here := within (s.phase j)
  cases old : q (s.phase j) <;> cases all : p (s.phase j) <;> simp_all

end Tally

section Quota

variable {k : Nat} {keys : Fin k → AttemptKey} {key : AttemptKey} {a clock now : Rat}
  {s t : LoginState k} {i : Fin k}

def LoginPhase.isIdle (a : Rat) (phase : LoginPhase) : Bool :=
  phase.isPending && !phase.isUnrecorded a

@[simp] theorem isUnrecorded_arrived : LoginPhase.arrived.isUnrecorded a = false := rfl

@[simp] theorem isUnrecorded_checked : LoginPhase.checked.isUnrecorded a = false := rfl

@[simp] theorem isUnrecorded_done : LoginPhase.done.isUnrecorded a = false := rfl

@[simp] theorem isUnrecorded_valid (time : Rat) :
    (LoginPhase.verified time true).isUnrecorded a = false := rfl

@[simp] theorem isIdle_arrived : LoginPhase.arrived.isIdle a = false := rfl

@[simp] theorem isIdle_checked : LoginPhase.checked.isIdle a = true := rfl

@[simp] theorem isIdle_verified (time : Rat) (valid : Bool) :
    (LoginPhase.verified time valid).isIdle a =
      !(LoginPhase.verified time valid).isUnrecorded a := rfl

@[simp] theorem isIdle_done : LoginPhase.done.isIdle a = false := rfl

theorem pending_of_unrecorded (phase : LoginPhase) (open_ : phase.isUnrecorded a = true) :
    phase.isPending = true := by
  cases phase with
  | verified time valid => rfl
  | arrived => cases open_
  | checked => cases open_
  | done => cases open_

/-- What bounds the failures in the window from `a` on, at any moment up to its end:
each of them is recorded or about to be, and the requests in flight fit in what is left. -/
structure Quota (keys : Fin k → AttemptKey) (key : AttemptKey) (a clock : Rat)
    (s : LoginState k) : Prop where
  bounded : s.log.countP (·.failsIn key a) ≤ loginMaxAttempts
  room : clock < a + loginWindowSeconds →
    s.log.countP (·.failsIn key a) + s.tally keys key (LoginPhase.isIdle a) ≤ loginMaxAttempts
  known : clock < a + loginWindowSeconds → s.log.countP (·.failsIn key a) ≤
    Window.countFrom a (s.attempts key) + s.tally keys key (LoginPhase.isUnrecorded a)
  fresh : clock < a → s.log.countP (·.failsIn key a) = 0
  past : ∀ i time valid, s.phase i = .verified time valid → time ≤ clock

theorem Quota.later (quota : Quota keys key a clock s) (le : clock ≤ now) :
    Quota keys key a now s where
  bounded := quota.bounded
  room inside := quota.room (lt_of_le_of_lt le inside)
  known inside := quota.known (lt_of_le_of_lt le inside)
  fresh before := quota.fresh (lt_of_le_of_lt le before)
  past i time valid phase := le_trans (quota.past i time valid phase) le

theorem past_update {phase : Fin k → LoginPhase} {i : Fin k} {next : LoginPhase}
    (old : ∀ i time valid, phase i = .verified time valid → time ≤ clock)
    (new : ∀ time valid, next = .verified time valid → time ≤ clock) :
    ∀ j time valid, Function.update phase i next j = .verified time valid → time ≤ clock := by
  intro j time valid here
  by_cases own : j = i
  · rw [own, Function.update_self] at here
    exact new time valid here
  · rw [Function.update_of_ne own] at here
    exact old j time valid here

theorem quota_uncounted {next : LoginPhase} (quota : Quota keys key a now s)
    (phases : t.phase = Function.update s.phase i next)
    (new : ∀ time valid, next = .verified time valid → time ≤ now)
    (fails : t.log.countP (·.failsIn key a) = s.log.countP (·.failsIn key a))
    (room : now < a + loginWindowSeconds →
      s.log.countP (·.failsIn key a) + t.tally keys key (LoginPhase.isIdle a) ≤ loginMaxAttempts)
    (known : now < a + loginWindowSeconds → s.log.countP (·.failsIn key a) ≤
      Window.countFrom a (t.attempts key) + t.tally keys key (LoginPhase.isUnrecorded a)) :
    Quota keys key a now t := by
  constructor
  · rw [fails]
    exact quota.bounded
  · rw [fails]
    exact room
  · rw [fails]
    exact known
  · rw [fails]
    exact quota.fresh
  · rw [phases]
    exact past_update quota.past new

theorem quota_refused (quota : Quota keys key a now s) (here : s.phase i = .arrived)
    (phases : t.phase = Function.update s.phase i .done)
    (table : t.attempts = (isLoginLocked now (keys i) s.attempts).2) (log : t.log = s.log) :
    Quota keys key a now t := by
  have idle := tally_update keys key (LoginPhase.isIdle a) phases
  have failed := tally_update keys key (LoginPhase.isUnrecorded a) phases
  simp [here] at idle failed
  apply quota_uncounted quota phases (by simp) (by rw [log])
  · intro inside
    have room := quota.room inside
    omega
  · intro inside
    have known := quota.known inside
    rw [table, isLoginLocked_countFrom _ inside]
    omega

theorem quota_passed (quota : Quota keys key a now s) (here : s.phase i = .arrived)
    (phases : t.phase = Function.update s.phase i .checked)
    (table : t.attempts = (isLoginLocked now (keys i) s.attempts).2) (log : t.log = s.log)
    (fits : (recentFailures now (s.attempts (keys i))).length +
      s.tally keys (keys i) LoginPhase.isPending < loginMaxAttempts) :
    Quota keys key a now t := by
  have idle := tally_update keys key (LoginPhase.isIdle a) phases
  have failed := tally_update keys key (LoginPhase.isUnrecorded a) phases
  simp [here] at idle failed
  apply quota_uncounted quota phases (by simp) (by rw [log])
  · intro inside
    have room := quota.room inside
    have known := quota.known inside
    by_cases own : keys i = key
    · rw [if_pos own] at idle
      rw [own, tally_split (LoginPhase.isUnrecorded a) pending_of_unrecorded] at fits
      have recent : Window.countFrom a (s.attempts key) ≤
          (recentFailures now (s.attempts key)).length := Window.countFrom_le_recent inside _
      have split : s.tally keys key (LoginPhase.isIdle a) =
        s.tally keys key fun phase => phase.isPending && !phase.isUnrecorded a := rfl
      omega
    · rw [if_neg own] at idle
      omega
  · intro inside
    have known := quota.known inside
    rw [table, isLoginLocked_countFrom _ inside]
    omega

theorem quota_verified (valid : Bool) (quota : Quota keys key a now s)
    (here : s.phase i = .checked)
    (phases : t.phase = Function.update s.phase i (.verified now valid))
    (table : t.attempts = s.attempts)
    (log : t.log = s.log ++ [.verification (keys i) now valid]) :
    Quota keys key a now t := by
  have idle := tally_update keys key (LoginPhase.isIdle a) phases
  have failed := tally_update keys key (LoginPhase.isUnrecorded a) phases
  have fails : t.log.countP (·.failsIn key a) = s.log.countP (·.failsIn key a) +
      if keys i = key ∧ (LoginPhase.verified now valid).isUnrecorded a = true then 1 else 0 := by
    rw [log, List.countP_append, List.countP_singleton]
    cases valid <;> simp [LoginEntry.failsIn, LoginPhase.isUnrecorded]
  rw [here] at idle failed
  by_cases counts : keys i = key ∧ (LoginPhase.verified now valid).isUnrecorded a = true
  · -- the request gives up its share of the room for the failure
    have inside : a ≤ now ∧ now < a + loginWindowSeconds := by
      cases valid with
      | true => cases counts.2
      | false => simpa [LoginPhase.isUnrecorded] using counts.2
    simp [counts.1, counts.2] at idle failed
    rw [if_pos counts] at fails
    have room := quota.room inside.2
    have known := quota.known inside.2
    constructor
    · omega
    · intro _
      omega
    · intro _
      rw [table]
      omega
    · intro early
      exact absurd inside.1 (not_le.mpr early)
    · rw [phases]
      exact past_update quota.past (by simp)
  · rw [if_neg counts] at fails
    have idle_same : t.tally keys key (LoginPhase.isIdle a) =
        s.tally keys key (LoginPhase.isIdle a) := by
      by_cases own : keys i = key
      · simp [own] at idle counts
        simpa [counts] using idle
      · simpa [own] using idle
    have failed_same : t.tally keys key (LoginPhase.isUnrecorded a) =
        s.tally keys key (LoginPhase.isUnrecorded a) := by
      rw [if_neg counts] at failed
      simpa using failed
    rw [Nat.add_zero] at fails
    apply quota_uncounted quota phases (by simp) fails
    · rw [idle_same]
      exact quota.room
    · rw [failed_same, table]
      exact quota.known

theorem quota_recorded {time : Rat} (quota : Quota keys key a now s)
    (here : s.phase i = .verified time false)
    (phases : t.phase = Function.update s.phase i .done)
    (table : t.attempts = recordLoginFailure now (keys i) s.attempts) (log : t.log = s.log) :
    Quota keys key a now t := by
  have idle := tally_update keys key (LoginPhase.isIdle a) phases
  have failed := tally_update keys key (LoginPhase.isUnrecorded a) phases
  simp [here] at idle failed
  apply quota_uncounted quota phases (by simp) (by rw [log])
  · intro inside
    have room := quota.room inside
    omega
  · intro inside
    have known := quota.known inside
    rw [table, recordLoginFailure_table]
    by_cases own : key = keys i
    · rw [if_pos own, Window.countFrom_concat]
      have kept : Window.countFrom a (recentFailures now (s.attempts key)) =
        Window.countFrom a (s.attempts key) := Window.countFrom_recent inside _
      rw [kept]
      by_cases counted : a ≤ now
      · rw [if_pos counted]
        split at failed <;> omega
      · -- a failure from before the window is none of its failures
        have early : ¬(keys i = key ∧ (LoginPhase.verified time false).isUnrecorded a = true) := by
          intro ⟨_, unrecorded⟩
          simp [LoginPhase.isUnrecorded] at unrecorded
          exact counted (le_trans unrecorded.1 (quota.past i time false here))
        rw [if_neg early] at failed
        omega
    · rw [if_neg own]
      rw [if_neg (fun both => own both.1.symm)] at failed
      omega

theorem quota_cleared {time : Rat} (quota : Quota keys key a now s)
    (here : s.phase i = .verified time true)
    (phases : t.phase = Function.update s.phase i .done)
    (table : t.attempts = clearLoginFailures (keys i) s.attempts)
    (log : t.log = s.log ++ [.cleared (keys i) now])
    (outside : keys i = key → ¬(a ≤ now ∧ now < a + loginWindowSeconds)) :
    Quota keys key a now t := by
  have idle := tally_update keys key (LoginPhase.isIdle a) phases
  have failed := tally_update keys key (LoginPhase.isUnrecorded a) phases
  simp [here] at idle failed
  have fails : t.log.countP (·.failsIn key a) = s.log.countP (·.failsIn key a) := by
    rw [log, List.countP_append]
    rfl
  apply quota_uncounted quota phases (by simp) fails
  · intro inside
    have room := quota.room inside
    omega
  · intro inside
    have known := quota.known inside
    rw [table, clearLoginFailures_table]
    by_cases own : key = keys i
    · have early : now < a := not_le.mp fun start => outside own.symm ⟨start, inside⟩
      rw [quota.fresh early]
      exact Nat.zero_le _
    · rw [if_neg own]
      omega

theorem quota_step {e : LoginEvent k} (quota : Quota keys key a e.now s)
    (admits : s.Admits keys e)
    (outside : ∀ time, .cleared key time ∈ (s.step keys e).log →
      ¬(a ≤ time ∧ time < a + loginWindowSeconds)) :
    Quota keys key a e.now (s.step keys e) := by
  cases here : s.phase e.request with
  | arrived =>
      cases locked : (isLoginLocked e.now (keys e.request) s.attempts).1 with
      | true =>
          apply quota_refused quota here <;> simp [LoginState.step, here, locked]
      | false =>
          apply quota_passed quota here _ _ _ (admits here locked) <;>
            simp [LoginState.step, here, locked]
  | checked =>
      apply quota_verified e.valid quota here <;> simp [LoginState.step, here]
  | verified time valid =>
      cases valid with
      | false =>
          apply quota_recorded quota here <;> simp [LoginState.step, here]
      | true =>
          have log : (s.step keys e).log = s.log ++ [.cleared (keys e.request) e.now] := by
            simp [LoginState.step, here]
          apply quota_cleared quota here _ _ log
          · intro own
            apply outside
            simp [log, own]
          · simp [LoginState.step, here]
          · simp [LoginState.step, here]
  | done =>
      have same : s.step keys e = s := by simp [LoginState.step, here]
      rw [same]
      exact quota

theorem log_step (s : LoginState k) (e : LoginEvent k) : s.log ⊆ (s.step keys e).log := by
  intro entry member
  cases here : s.phase e.request with
  | verified time valid => cases valid <;> simp [LoginState.step, here, member]
  | arrived => simp [LoginState.step, here, member]
  | checked => simp [LoginState.step, here, member]
  | done => simp [LoginState.step, here, member]

theorem log_run (events : List (LoginEvent k)) (s : LoginState k) :
    s.log ⊆ (s.run keys events).log := by
  induction events generalizing s with
  | nil => exact List.Subset.refl _
  | cons e events ih => exact List.Subset.trans (log_step s e) (ih (s.step keys e))

theorem quota_run (events : List (LoginEvent k)) (s : LoginState k)
    (quota : Quota keys key a clock s) (after : ∀ e ∈ events, clock ≤ e.now)
    (ordered : events.Pairwise fun d e => d.now ≤ e.now) (admits : s.AdmitsAlong keys events)
    (outside : ∀ time, .cleared key time ∈ (s.run keys events).log →
      ¬(a ≤ time ∧ time < a + loginWindowSeconds)) :
    (s.run keys events).log.countP (·.failsIn key a) ≤ loginMaxAttempts := by
  induction events generalizing s clock with
  | nil => exact quota.bounded
  | cons e events ih =>
      have order := List.pairwise_cons.mp ordered
      have now := quota.later (after e (by simp))
      apply ih (s.step keys e) (quota_step now admits.1 _) order.1 order.2 admits.2 outside
      intro time member
      exact outside time (log_run events (s.step keys e) member)

end Quota

theorem failures_bounded_of_room {k : Nat} (keys : Fin k → AttemptKey) (attempts : Attempts)
    (events : List (LoginEvent k)) (ordered : events.Pairwise fun d e => d.now ≤ e.now)
    (admits : (LoginState.start attempts).AdmitsAlong keys events) :
    FailuresBounded ((LoginState.start attempts).run keys events).log := by
  intro key a outside
  cases events with
  | nil => exact Nat.zero_le _
  | cons e events =>
      have quota : Quota keys key a e.now (LoginState.start attempts) := by
        constructor
        · exact Nat.zero_le _
        · intro _
          simp [LoginState.start, LoginState.tally]
        · intro _
          exact Nat.zero_le _
        · intro _
          rfl
        · intro i time valid here
          cases here
      apply quota_run (e :: events) _ quota _ ordered admits outside
      intro d member
      rcases List.mem_cons.mp member with first | later
      · rw [first]
      · exact (List.pairwise_cons.mp ordered).1 d later

def twoAtOnce : List (LoginEvent 2) :=
  [⟨0, 0, false⟩, ⟨0, 1, false⟩, ⟨1, 0, false⟩, ⟨1, 1, false⟩, ⟨2, 0, false⟩, ⟨2, 1, false⟩]

theorem failures_bounded_of_room_two :
    FailuresBounded ((LoginState.start fun _ => []).run (fun _ => ([], [])) twoAtOnce).log :=
  failures_bounded_of_room _ _ twoAtOnce (by decide +kernel) (by decide +kernel)

end SmolNas.App
