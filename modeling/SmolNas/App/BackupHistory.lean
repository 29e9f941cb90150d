import Mathlib.Data.List.DropRight
import Mathlib.Logic.Function.Basic
import SmolNas.Py.Str

/-! `_append_backup_history`: calls at the same time under one lock, the temporary file
and the file it replaces, with failures and crashes at any step. -/

namespace SmolNas.App

open Py

/-- `json.dump` and `json.load` of lists; a text that is no JSON, or no list, loads as
nothing. -/
structure ListJson (J : Type) where
  dump : List J → Str
  load : Str → Option (List J)
  load_dump : ∀ history, load (dump history) = some history

def backupHistoryLimit : Nat := 200

section Cap

variable {J : Type}

/-- `history[-_BACKUP_HISTORY_LIMIT:]` -/
def capped (history : List J) : List J := history.rtake backupHistoryLimit

/-- `_load_backup_history()`; `fails` if the file exists and cannot be read. -/
def loadBackupHistory (json : ListJson J) (fails : Bool) : Option Str → List J
  | none => []
  | some text => if fails then [] else (json.load text).getD []

theorem rtake_rtake_concat (n : Nat) (history : List J) (record : J) :
    (history.rtake (n + 1) ++ [record]).rtake (n + 1) = (history ++ [record]).rtake (n + 1) := by
  rw [List.rtake_concat_succ, List.rtake_concat_succ, List.rtake_eq_reverse_take_reverse,
    List.rtake_eq_reverse_take_reverse, List.rtake_eq_reverse_take_reverse, List.reverse_reverse,
    List.take_take, Nat.min_eq_left (Nat.le_succ n)]

/-- What was dropped once would be dropped later. -/
theorem capped_capped_concat (history : List J) (record : J) :
    capped (capped history ++ [record]) = capped (history ++ [record]) :=
  rtake_rtake_concat 199 history record

/-- What the code keeps is what stands after all but the last 200. -/
theorem capped_eq (history : List J) : capped history = history.drop (history.length - 200) := rfl

theorem capped_nil : capped ([] : List J) = [] := List.rtake_nil _

theorem capped_singleton (record : J) : capped [record] = [record] := by
  have last := List.rtake_concat_succ [] 199 record
  rw [List.rtake_nil] at last
  exact last

theorem length_capped (history : List J) :
    (capped history).length = min backupHistoryLimit history.length := by
  rw [capped, List.rtake_eq_reverse_take_reverse, List.length_reverse, List.length_take,
    List.length_reverse]

end Cap

inductive AppendPhase (J : Type) where
  | waiting
  | locked
  | loaded (history : List J)
  | writing (history : List J)
  | written (history : List J)
  | finishing
  | done
  deriving DecidableEq, Repr

namespace AppendPhase

variable {J : Type}

def isActive : AppendPhase J → Bool
  | waiting => false
  | done => false
  | _ => true

def history? : AppendPhase J → Option (List J)
  | loaded history => some history
  | writing history => some history
  | written history => some history
  | _ => none

def isWritten : AppendPhase J → Bool
  | written _ => true
  | _ => false

end AppendPhase

/-- The next step of a call, or a crash of the process. An `OSError` at the step is
`fails`; a step that writes leaves `stored` characters of the text in the file. -/
inductive AppendEvent (ι : Type) where
  | step (call : ι) (fails : Bool) (stored : Nat)
  | crash

structure HistoryState (ι J : Type) where
  /-- The history file and the temporary file, if they exist. -/
  file : Option Str
  temporary : Option Str
  lock : Option ι
  phase : ι → AppendPhase J
  /-- The calls in the order in which they took the lock, and which of them persisted. -/
  turns : List ι
  persisted : ι → Bool
  /-- The calls that could not read a history with records in it. -/
  blind : ι → Bool

namespace HistoryState

variable {ι J : Type} [DecidableEq ι] (json : ListJson J) (record : ι → J)

def enter (s : HistoryState ι J) (i : ι) (next : AppendPhase J) : HistoryState ι J :=
  { s with phase := Function.update s.phase i next }

def advance (s : HistoryState ι J) (i : ι) (fails : Bool) (stored : Nat) : HistoryState ι J :=
  match s.phase i with
  | .waiting =>
      if s.lock.isNone then
        { s.enter i .locked with lock := some i, turns := s.turns ++ [i] }
      else s
  | .locked =>
      let history := capped (loadBackupHistory json fails s.file ++ [record i])
      { s.enter i (.loaded history) with
        blind := Function.update s.blind i
          (fails && !(loadBackupHistory json false s.file).isEmpty) }
  | .loaded history =>
      if fails then s.enter i .finishing
      else { s.enter i (.writing history) with temporary := some [] }
  | .writing history =>
      let text := some ((json.dump history).take stored)
      if fails then { s.enter i .finishing with temporary := text }
      else if stored < (json.dump history).length then { s with temporary := text }
      else { s.enter i (.written history) with temporary := text }
  | .written _ =>
      if fails then s.enter i .finishing
      else
        { s.enter i .finishing with
          file := s.temporary
          temporary := none
          persisted := Function.update s.persisted i true }
  | .finishing => { s.enter i .done with lock := none }
  | .done => s

/-- A call that has begun ends with the process, which frees the lock. -/
def crashed (s : HistoryState ι J) : HistoryState ι J :=
  { s with
    lock := none
    phase := fun i => if s.phase i matches .waiting then .waiting else .done }

def step (s : HistoryState ι J) : AppendEvent ι → HistoryState ι J
  | .step i fails stored => s.advance json record i fails stored
  | .crash => s.crashed

def run (s : HistoryState ι J) (events : List (AppendEvent ι)) : HistoryState ι J :=
  events.foldl (step json record) s

/-- No history file, and no call has begun; a temporary file may be left over. -/
def start (temporary : Option Str) : HistoryState ι J :=
  ⟨none, temporary, none, fun _ => .waiting, [], fun _ => false, fun _ => false⟩

/-- The records whose append persisted, in lock order. -/
def records (s : HistoryState ι J) : List J := (s.turns.filter s.persisted).map record

/-- The file is absent or holds the last 200 of the records that persisted. -/
def Faithful (s : HistoryState ι J) : Prop :=
  s.file = if s.records record = [] then none
    else some (json.dump ((s.records record).drop ((s.records record).length - 200)))

instance (s : HistoryState ι J) : Decidable (s.Faithful json record) :=
  inferInstanceAs (Decidable (_ = _))

def FaithfulAlong : HistoryState ι J → List (AppendEvent ι) → Prop
  | s, [] => s.Faithful json record
  | s, e :: events => s.Faithful json record ∧ (s.step json record e).FaithfulAlong events

/-- A call that could not read a history with records in it does not replace the file. -/
def Sighted (s : HistoryState ι J) : AppendEvent ι → Prop
  | .step i fails _ => (s.phase i).isWritten = true → fails = false → s.blind i = false
  | .crash => True

def SightedAlong : HistoryState ι J → List (AppendEvent ι) → Prop
  | _, [] => True
  | s, e :: events => s.Sighted e ∧ (s.step json record e).SightedAlong events

def Reads (s : HistoryState ι J) : AppendEvent ι → Prop
  | .step i fails _ => s.phase i = .locked → s.file ≠ none → fails = false
  | .crash => True

def ReadsAlong : HistoryState ι J → List (AppendEvent ι) → Prop
  | _, [] => True
  | s, e :: events => s.Reads e ∧ (s.step json record e).ReadsAlong events

instance [DecidableEq J] (s : HistoryState ι J) : (e : AppendEvent ι) → Decidable (s.Reads e)
  | .step _ _ _ => inferInstanceAs (Decidable (_ → _ → _ = _))
  | .crash => isTrue trivial

instance decidableReadsAlong [DecidableEq J] : (s : HistoryState ι J) →
    (events : List (AppendEvent ι)) → Decidable (s.ReadsAlong json record events)
  | _, [] => isTrue trivial
  | s, e :: events =>
      have := decidableReadsAlong (s.step json record e) events
      inferInstanceAs (Decidable (_ ∧ _))

end HistoryState

end SmolNas.App
