import Mathlib.Data.List.FinRange
import Mathlib.Data.List.Permutation
import SmolNas.App.SmbConf
import SmolNas.Lib.Interleave

/-! Requests that change `smb.conf` at the same time: the steps with which each of
them reads and writes the file, in any order. -/

namespace SmolNas.App

open Py Lib Interleave

inductive ConfTask where
  | addShare (name path validUsers readOnly guestOk : Str)
  | deleteShare (shareName : Str)
  | updateGlobal (newConfig : List (Str × Str))
  deriving DecidableEq, Repr

namespace ConfTask

def apply (conf : Str) : ConfTask → Str
  | addShare name path validUsers readOnly guestOk =>
      addShareToConf name path validUsers readOnly guestOk conf
  | deleteShare shareName => deleteShareFromConf shareName conf
  | updateGlobal newConfig => updateSambaGlobalConf newConfig conf

/-- A write to a file opened with `'a'` goes to its end. -/
def appendText (text : Str) : Str × Str → Str × Str := fun (file, own) => (file ++ text, own)

def readLinesInto (f : Str → Str) : Str → Str → Str := fun file _ => f file

/-- Opening with `'w'` empties the file. -/
def openToWrite : Str × Str → Str × Str := fun (_, own) => ([], own)

/-- The text is written from the start of the file, over what others wrote there. -/
def writeLines : Str × Str → Str × Str := fun (file, own) => (own ++ file.drop own.length, own)

def rewrite (f : Str → Str) : Task Str Str := ⟨[readLinesInto f], [openToWrite, writeLines]⟩

def steps : ConfTask → Task Str Str
  | addShare name path validUsers readOnly guestOk =>
      ⟨[], [appendText (shareLines name path validUsers readOnly guestOk).flatten]⟩
  | deleteShare shareName => rewrite (deleteShareFromConf shareName)
  | updateGlobal newConfig => rewrite (updateSambaGlobalConf newConfig)

theorem change_rewrite (f : Str → Str) (conf own : Str) :
    (Task.change (rewrite f).changes (conf, own)).1 = own := by
  simp [Task.change, rewrite, openToWrite, writeLines]

theorem alone_rewrite (f : Str → Str) (conf own : Str) : (rewrite f).alone own conf = f conf :=
  change_rewrite f conf (f conf)

theorem alone_steps (task : ConfTask) (conf own : Str) :
    task.steps.alone own conf = task.apply conf := by
  cases task with
  | addShare name path validUsers readOnly guestOk => rfl
  | deleteShare shareName => exact alone_rewrite _ conf own
  | updateGlobal newConfig => exact alone_rewrite _ conf own

theorem changes_ne_nil (task : ConfTask) : task.steps.changes ≠ [] := by
  cases task <;> simp [steps, rewrite]

end ConfTask

section Race

variable {k : Nat} (tasks : Fin k → ConfTask)

abbrev ConfConfig (k : Nat) := Config (Fin k) Str Str

def program (i : Fin k) : Task Str Str := (tasks i).steps

def confStart (conf : Str) : ConfConfig k := initial (fun _ => []) (program tasks) conf

/-- A request reads at any time. It opens the file for writing, or appends to it, while
no other request is between its opening and its writing, and only when the text that
it is going to write is what it makes of the file as it now stands. -/
def StaysCurrent (conf : Str) (schedule : List (Fin k)) : Prop :=
  UndisturbedAlong (fun _ => []) (program tasks) (confStart tasks conf) schedule

def Completed (c : ConfConfig k) : Prop := ∀ i, c.left i = ⟨[], []⟩

def oneByOne (conf : Str) (order : List (Fin k)) : Str :=
  order.foldl (fun conf i => (tasks i).apply conf) conf

/-- The text is the one that some order of the requests gives. -/
def Serializable (conf final : Str) : Prop :=
  ∃ order : List (Fin k), order.Perm (List.finRange k) ∧
    final = oneByOne tasks conf order

theorem serial_eq_oneByOne (conf : Str) (order : List (Fin k)) :
    serial (fun _ => []) (program tasks) conf order = oneByOne tasks conf order := by
  have each : (fun conf i => (program tasks i).alone [] conf) =
      fun conf i => (tasks i).apply conf := by
    funext conf i
    exact (tasks i).alone_steps conf []
  rw [serial, oneByOne, each]

theorem current_requests_serializable (conf : Str) (schedule : List (Fin k))
    (current : StaysCurrent tasks conf schedule)
    (completed : Completed (run (confStart tasks conf) schedule)) :
    Serializable tasks conf (run (confStart tasks conf) schedule).shared := by
  obtain ⟨order, nodup, all, final⟩ := serial_of_undisturbed
    (fun i => (tasks i).changes_ne_nil) current completed
  have perm : order.Perm (List.finRange k) := by
    rw [List.perm_ext_iff_of_nodup nodup (List.nodup_finRange _)]
    exact fun i => iff_of_true (all i) (List.mem_finRange i)
  refine ⟨order, perm, ?_⟩
  calc
    (run (confStart tasks conf) schedule).shared =
        serial (fun _ => []) (program tasks) conf order := final
    _ = oneByOne tasks conf order := serial_eq_oneByOne tasks conf order

end Race

def twoSections : Str := "[a]\n[b]\n".toList

/-- Two requests that delete the same share, both reading before either writes. -/
theorem current_requests_serializable_same :
    let tasks : Fin 2 → ConfTask := fun _ => .deleteShare "a".toList
    StaysCurrent tasks twoSections [0, 1, 0, 0, 1, 1] ∧
      Serializable tasks twoSections
        (run (confStart tasks twoSections) [0, 1, 0, 0, 1, 1]).shared := by
  intro tasks
  have current : StaysCurrent tasks twoSections [0, 1, 0, 0, 1, 1] := by
    unfold StaysCurrent
    decide +kernel
  refine ⟨current, current_requests_serializable tasks twoSections _ current ?_⟩
  intro i
  match i with
  | 0 => rfl
  | 1 => rfl

def twoDeletions : Fin 2 → ConfTask
  | 0 => .deleteShare "a".toList
  | 1 => .deleteShare "b".toList

/-- Two deletions that both read before either writes: one deleted share is back. -/
theorem deletions_resurrect :
    Completed (run (confStart twoDeletions twoSections) [0, 1, 0, 0, 1, 1]) ∧
      ¬Serializable twoDeletions twoSections
        (run (confStart twoDeletions twoSections) [0, 1, 0, 0, 1, 1]).shared := by
  constructor
  · intro i
    match i with
    | 0 => rfl
    | 1 => rfl
  · intro given
    rcases given with ⟨order, perm, same⟩
    have table : ∀ order ∈ (List.finRange 2).permutations',
        (run (confStart twoDeletions twoSections) [0, 1, 0, 0, 1, 1]).shared ≠
          oneByOne twoDeletions twoSections order := by
      decide +kernel
    exact table order (List.mem_permutations'.mpr perm) same

end SmolNas.App
