import Mathlib.Data.Fintype.Basic
import Mathlib.Data.List.Nodup
import Mathlib.Logic.Function.Basic

/-! Tasks that take their steps in turns on a shared state.

A task first looks at the shared state, in some steps, and then changes it, in some
more; what it finds it keeps in a state of its own. A schedule says which task takes
the next step. A run ends as some serial order of the tasks would when no task
changes the state between two changes of another one, and every task that begins to
change the state is about to make of it what it would make of it alone. -/

namespace SmolNas.Lib.Interleave

variable {ι S L : Type}

structure Task (S L : Type) where
  looks : List (S → L → L)
  changes : List (S × L → S × L)

namespace Task

def look (looks : List (S → L → L)) (s : S) (own : L) : L :=
  looks.foldl (fun own look => look s own) own

def change (changes : List (S × L → S × L)) (state : S × L) : S × L :=
  changes.foldl (fun state change => change state) state

def alone (task : Task S L) (own : L) (s : S) : S :=
  (change task.changes (s, look task.looks s own)).1

end Task

/-- A moment of a run: each task has the steps of a shorter task left. -/
structure Config (ι S L : Type) where
  shared : S
  own : ι → L
  left : ι → Task S L

section Order

variable (start : ι → L) (tasks : ι → Task S L)

/-- The tasks one after another. -/
def serial (s : S) (order : List ι) : S :=
  order.foldl (fun s i => (tasks i).alone (start i) s) s

def initial (s : S) : Config ι S L := ⟨s, start, tasks⟩

/-- The task has begun to change the state and is not done with it. -/
def Changing (c : Config ι S L) (i : ι) : Prop :=
  (c.left i).changes ≠ [] ∧ (c.left i).changes.length < (tasks i).changes.length

/-- What the task has found still holds: its changes make of the state what the
whole task would. -/
def Fresh (c : Config ι S L) (i : ι) : Prop :=
  (Task.change (tasks i).changes (c.shared, c.own i)).1 = (tasks i).alone (start i) c.shared

/-- A look may be taken at any time. A change is made while no other task is
changing the state, and the first change of a task only when the task is fresh. -/
def Undisturbed (c : Config ι S L) (i : ι) : Prop :=
  (c.left i).looks = [] → (c.left i).changes ≠ [] →
    (∀ j, j ≠ i → ¬Changing tasks c j) ∧
      ((c.left i).changes.length = (tasks i).changes.length → Fresh start tasks c i)

instance (c : Config ι S L) (i : ι) : Decidable (Changing tasks c i) :=
  inferInstanceAs (Decidable (_ ∧ _))

instance [DecidableEq S] (c : Config ι S L) (i : ι) : Decidable (Fresh start tasks c i) :=
  inferInstanceAs (Decidable (_ = _))

instance [Fintype ι] [DecidableEq ι] [DecidableEq S] (c : Config ι S L) (i : ι) :
    Decidable (Undisturbed start tasks c i) :=
  inferInstanceAs (Decidable (_ → _ → _ ∧ _))

/-- The tasks of the order are done, the state is the one they leave one after
another, and at most one other task has begun to change it. -/
structure Ordered (s : S) (order : List ι) (active : Option ι) (c : Config ι S L) : Prop where
  nodup : order.Nodup
  finished : ∀ i ∈ order, c.left i = ⟨[], []⟩
  waiting : ∀ i, i ∉ order → active ≠ some i → (c.left i).changes = (tasks i).changes
  idle : active = none → c.shared = serial start tasks s order
  busy : ∀ i, active = some i → i ∉ order ∧ (c.left i).looks = [] ∧ Changing tasks c i ∧
    (Task.change (c.left i).changes (c.shared, c.own i)).1 = serial start tasks s (order ++ [i])

theorem serial_concat (s : S) (order : List ι) (i : ι) :
    serial start tasks s (order ++ [i]) =
      (tasks i).alone (start i) (serial start tasks s order) := by
  rw [serial, List.foldl_append]
  rfl

variable {start tasks} in
theorem outside_order {s : S} {order : List ι} {active : Option ι} {c : Config ι S L} {i : ι}
    (ordered : Ordered start tasks s order active c) (some : c.left i ≠ ⟨[], []⟩) : i ∉ order :=
  fun member => some (ordered.finished i member)

theorem ordered_initial (s : S) : Ordered start tasks s [] none (initial start tasks s) where
  nodup := List.nodup_nil
  finished _ member := by cases member
  waiting _ _ _ := rfl
  idle _ := rfl
  busy _ active := by cases active

end Order

section Run

variable [DecidableEq ι]

def step (c : Config ι S L) (i : ι) : Config ι S L :=
  match c.left i with
  | ⟨look :: looks, changes⟩ =>
      { c with
        own := Function.update c.own i (look c.shared (c.own i))
        left := Function.update c.left i ⟨looks, changes⟩ }
  | ⟨[], change :: changes⟩ =>
      let after := change (c.shared, c.own i)
      ⟨after.1, Function.update c.own i after.2, Function.update c.left i ⟨[], changes⟩⟩
  | ⟨[], []⟩ => c

def run (c : Config ι S L) (schedule : List ι) : Config ι S L := schedule.foldl step c

def UndisturbedAlong (start : ι → L) (tasks : ι → Task S L) : Config ι S L → List ι → Prop
  | _, [] => True
  | c, i :: schedule =>
      Undisturbed start tasks c i ∧ UndisturbedAlong start tasks (step c i) schedule

instance decidableUndisturbedAlong [Fintype ι] [DecidableEq S] (start : ι → L)
    (tasks : ι → Task S L) : (c : Config ι S L) → (schedule : List ι) →
      Decidable (UndisturbedAlong start tasks c schedule)
  | _, [] => .isTrue trivial
  | c, i :: schedule =>
      have := decidableUndisturbedAlong start tasks (step c i) schedule
      inferInstanceAs (Decidable (_ ∧ _))

variable {start : ι → L} {tasks : ι → Task S L} {s : S} {order : List ι} {active : Option ι}
  {c : Config ι S L} {i : ι}

theorem step_other {j : ι} (other : j ≠ i) :
    (step c i).left j = c.left j ∧ (step c i).own j = c.own j := by
  unfold step
  split
  · exact ⟨Function.update_of_ne other _ _, Function.update_of_ne other _ _⟩
  · exact ⟨Function.update_of_ne other _ _, Function.update_of_ne other _ _⟩
  · exact ⟨rfl, rfl⟩

theorem ordered_look (ordered : Ordered start tasks s order active c)
    {look : S → L → L} {looks : List (S → L → L)} {changes : List (S × L → S × L)}
    (left : c.left i = ⟨look :: looks, changes⟩) :
    Ordered start tasks s order active (step c i) := by
  have outside : i ∉ order := outside_order ordered (by rw [left]; simp)
  have apart (j : ι) (member : j ∈ order) : j ≠ i := fun same => outside (same ▸ member)
  have shared : (step c i).shared = c.shared := by rw [step, left]
  have kept (j : ι) : ((step c i).left j).changes = (c.left j).changes := by
    by_cases other : j = i
    · subst other
      rw [step, left]
      simp
    · rw [(step_other other).1]
  refine ⟨ordered.nodup, ?_, ?_, ?_, ?_⟩
  · intro j member
    rw [(step_other (apart j member)).1]
    exact ordered.finished j member
  · intro j absent different
    rw [kept]
    exact ordered.waiting j absent different
  · rw [shared]
    exact ordered.idle
  · intro j now
    obtain ⟨absent, looked, changing, state⟩ := ordered.busy j now
    have other : j ≠ i := by
      intro equal
      subst equal
      rw [left] at looked
      cases looked
    rw [Changing, (step_other other).1, (step_other other).2, shared]
    exact ⟨absent, looked, changing, state⟩

theorem ordered_change (ordered : Ordered start tasks s order active c)
    {change : S × L → S × L} {changes : List (S × L → S × L)}
    (left : c.left i = ⟨[], change :: changes⟩)
    (within : (change :: changes).length ≤ (tasks i).changes.length)
    (turn : active = none ∨ active = some i)
    (state : (Task.change (change :: changes) (c.shared, c.own i)).1 =
      serial start tasks s (order ++ [i])) :
    ∃ order' active', Ordered start tasks s order' active' (step c i) := by
  have outside : i ∉ order := outside_order ordered (by rw [left]; simp)
  have apart (j : ι) (member : j ∈ order) : j ≠ i := fun same => outside (same ▸ member)
  have own : (step c i).left i = ⟨[], changes⟩ := by
    rw [step, left]
    exact Function.update_self i _ _
  have after : (Task.change changes ((step c i).shared, (step c i).own i)).1 =
      serial start tasks s (order ++ [i]) := by
    rw [← state, step, left]
    simp only [Function.update_self]
    rfl
  have others (j : ι) (absent : j ∉ order) (different : j ≠ i) :
      ((step c i).left j).changes = (tasks j).changes := by
    rw [(step_other different).1]
    apply ordered.waiting j absent
    rcases turn with none | mine
    · rw [none]
      simp
    · rw [mine]
      exact fun same => different (Option.some.inj same).symm
  cases changes with
  | nil =>
      refine ⟨order ++ [i], none, ?_, ?_, ?_, fun _ => after, by simp⟩
      · exact List.nodup_append.mpr ⟨ordered.nodup, List.nodup_singleton i, by
          intro j inside k single
          rw [List.mem_singleton.mp single]
          exact apart j inside⟩
      · intro j inside
        rcases List.mem_append.mp inside with old | new
        · rw [(step_other (apart j old)).1]
          exact ordered.finished j old
        · rw [List.mem_singleton.mp new, own]
      · intro j absent _
        simp only [List.mem_append, List.mem_singleton, not_or] at absent
        exact others j absent.1 absent.2
  | cons next changes =>
      refine ⟨order, some i, ordered.nodup, ?_, ?_, by simp, ?_⟩
      · intro j inside
        rw [(step_other (apart j inside)).1]
        exact ordered.finished j inside
      · intro j absent different
        exact others j absent fun same => different (by rw [same])
      · intro j same
        cases same
        rw [Changing, own]
        exact ⟨outside, rfl, ⟨by simp, within⟩, after⟩

/-- One undisturbed step keeps the order, or adds the task that it finishes. -/
theorem ordered_step (ordered : Ordered start tasks s order active c) (i : ι)
    (calm : Undisturbed start tasks c i) :
    ∃ order' active', Ordered start tasks s order' active' (step c i) := by
  cases left : c.left i with
  | mk looks changes =>
      rcases looks with _ | ⟨look, looks⟩
      · rcases changes with _ | ⟨change, changes⟩
        · have same : step c i = c := by rw [step, left]
          exact ⟨order, active, same.symm ▸ ordered⟩
        · obtain ⟨quiet, fresh⟩ := calm (by rw [left]) (by rw [left]; simp)
          have outside := outside_order ordered (by rw [left]; simp)
          cases active with
          | none =>
              have whole := ordered.waiting i outside (by simp)
              have state := fresh (congrArg List.length whole)
              rw [Fresh, ← whole, left, ordered.idle rfl, ← serial_concat] at state
              rw [left] at whole
              exact ordered_change ordered left (whole ▸ Nat.le_refl _) (.inl rfl)
                (ordered.idle rfl ▸ state)
          | some j =>
              obtain ⟨-, -, changing, state⟩ := ordered.busy j rfl
              have same : j = i := by
                by_contra other
                exact quiet j other changing
              subst same
              have fewer := changing.2
              rw [left] at state fewer
              exact ordered_change ordered left (Nat.le_of_lt fewer) (.inr rfl) state
      · exact ⟨order, active, ordered_look ordered left⟩

theorem ordered_run (schedule : List ι) (ordered : Ordered start tasks s order active c)
    (calm : UndisturbedAlong start tasks c schedule) :
    ∃ order' active', Ordered start tasks s order' active' (run c schedule) := by
  induction schedule generalizing c order active with
  | nil => exact ⟨order, active, ordered⟩
  | cons i schedule ih =>
      obtain ⟨order', active', next⟩ := ordered_step ordered i calm.1
      exact ih next calm.2

/-- An undisturbed run in which every task finishes ends as some serial order. -/
theorem serial_of_undisturbed {schedule : List ι} (some : ∀ i, (tasks i).changes ≠ [])
    (calm : UndisturbedAlong start tasks (initial start tasks s) schedule)
    (finished : ∀ i, (run (initial start tasks s) schedule).left i = ⟨[], []⟩) :
    ∃ order : List ι, order.Nodup ∧ (∀ i, i ∈ order) ∧
      (run (initial start tasks s) schedule).shared = serial start tasks s order := by
  obtain ⟨order, active, ordered⟩ := ordered_run schedule (ordered_initial start tasks s) calm
  have idle : active = none := by
    cases active with
    | none => rfl
    | some i =>
        have changing := (ordered.busy i rfl).2.2.1.1
        rw [finished i] at changing
        exact absurd rfl changing
  refine ⟨order, ordered.nodup, ?_, ordered.idle idle⟩
  intro i
  by_contra absent
  have waiting := ordered.waiting i absent (by simp [idle])
  rw [finished i] at waiting
  exact some i waiting.symm

end Run

end SmolNas.Lib.Interleave
