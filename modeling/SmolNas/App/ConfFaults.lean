import SmolNas.App.ConfRace

/-! The functions that change `smb.conf` when the file fails them: each of its steps on
the file may raise, and a write that raises may have stored a part of its data. -/

namespace SmolNas.App

open Py

inductive FileStep where
  | openToRead
  | readLines
  | openToAppend
  | openToWrite
  | write
  deriving DecidableEq, Repr

/-- Which steps raise, with the texts of the exceptions, and how much a failing write
stores. -/
structure FileFaults where
  raises : FileStep → Option Str
  stored : Nat

/-- A computation on the content of the file; an exception leaves the content as it
stands by then. -/
abbrev ConfAction (A : Type) := ExceptT Str (StateM Str) A

namespace FileFaults

variable (faults : FileFaults)

def attempt {A : Type} (step : FileStep) (action : ConfAction A) : ConfAction A :=
  match faults.raises step with
  | some text => throw text
  | none => action

def readFile : ConfAction (List Str) := do
  faults.attempt .openToRead (pure ())
  faults.attempt .readLines (return readlines (← get))

/-- Opening with `'w'` empties the file. -/
def openToWrite : ConfAction Unit := faults.attempt .openToWrite (set ([] : Str))

/-- All data goes to the end of what the file holds, or a part of it does. -/
def write (data : Str) : ConfAction Unit := do
  match faults.raises .write with
  | some text =>
      modify (· ++ data.take faults.stored)
      throw text
  | none => modify (· ++ data)

def rewrite (scan : List Str → List Str) (message : Str) : ConfAction Str := do
  let lines ← faults.readFile
  faults.openToWrite
  faults.write (scan lines).flatten
  return message

end FileFaults

namespace ConfTask

def body (faults : FileFaults) : ConfTask → ConfAction Str
  | addShare name path validUsers readOnly guestOk => do
      faults.attempt .openToAppend (pure ())
      faults.write (shareLines name path validUsers readOnly guestOk).flatten
      return "Share added".toList
  | deleteShare shareName =>
      faults.rewrite (deleteScan shareName false) "Share deleted".toList
  | updateGlobal newConfig => faults.rewrite (updateScan newConfig false) "Updated".toList

def call (faults : FileFaults) (task : ConfTask) (conf : Str) : (Bool × Str) × Str :=
  match task.body faults conf with
  | (.ok message, content) => ((true, message), content)
  | (.error text, content) => ((false, text), content)

def stepsBefore : ConfTask → List FileStep
  | addShare .. => [.openToAppend]
  | deleteShare _ => [.openToRead, .readLines, .openToWrite]
  | updateGlobal _ => [.openToRead, .readLines, .openToWrite]

def rewrites : ConfTask → Bool
  | addShare .. => false
  | deleteShare _ => true
  | updateGlobal _ => true

def contentBefore (conf : Str) (task : ConfTask) : Str := if task.rewrites then [] else conf

def data (conf : Str) : ConfTask → Str
  | addShare name path validUsers readOnly guestOk =>
      (shareLines name path validUsers readOnly guestOk).flatten
  | deleteShare shareName => (deleteScan shareName false (readlines conf)).flatten
  | updateGlobal newConfig => (updateScan newConfig false (readlines conf)).flatten

def message : ConfTask → Str
  | addShare .. => "Share added".toList
  | deleteShare _ => "Share deleted".toList
  | updateGlobal _ => "Updated".toList

/-- The write is the first step that raises. -/
def FailsToWrite (raises : FileStep → Option Str) (task : ConfTask) : Prop :=
  task.stepsBefore.findSome? raises = none ∧ raises .write ≠ none

end ConfTask

section Faults

variable {faults : FileFaults}

theorem bind_ok {A B : Type} {action : ConfAction A} {next : A → ConfAction B} {a : A}
    {content after : Str} (first : action content = (.ok a, after)) :
    (action >>= next) content = next a after := by
  change (let (a, s) := action content; ExceptT.bindCont next a s) = _
  rw [first]
  rfl

theorem pure_run {A : Type} (a : A) (content : Str) :
    (pure a : ConfAction A) content = (.ok a, content) := rfl

theorem set_run (new content : Str) : (set new : ConfAction Unit) content = (.ok (), new) := rfl

theorem bind_error {A B : Type} {action : ConfAction A} {next : A → ConfAction B} {text : Str}
    {content after : Str} (first : action content = (.error text, after)) :
    (action >>= next) content = (.error text, after) := by
  change (let (a, s) := action content; ExceptT.bindCont next a s) = _
  rw [first]
  rfl

theorem attempt_raises {A : Type} {step : FileStep} {text : Str} {action : ConfAction A}
    (raised : faults.raises step = some text) (content : Str) :
    faults.attempt step action content = (.error text, content) := by
  rw [FileFaults.attempt, raised]
  rfl

theorem attempt_succeeds {A : Type} {step : FileStep} {action : ConfAction A}
    (fine : faults.raises step = none) : faults.attempt step action = action := by
  rw [FileFaults.attempt, fine]

theorem write_raises {text : Str} (raised : faults.raises .write = some text)
    (data content : Str) :
    faults.write data content = (.error text, content ++ data.take faults.stored) := by
  rw [FileFaults.write, raised]
  rfl

theorem write_succeeds (fine : faults.raises .write = none) (data content : Str) :
    faults.write data content = (.ok (), content ++ data) := by
  rw [FileFaults.write, fine]
  rfl

theorem readFile_run (faults : FileFaults) (conf : Str) :
    faults.readFile conf =
      match [FileStep.openToRead, .readLines].findSome? faults.raises with
      | some text => (.error text, conf)
      | none => (.ok (readlines conf), conf) := by
  cases opened : faults.raises .openToRead with
  | some text =>
      rw [FileFaults.readFile, bind_error (attempt_raises opened conf)]
      simp [opened]
  | none =>
      rw [FileFaults.readFile, attempt_succeeds opened, bind_ok (pure_run () conf)]
      cases read : faults.raises .readLines with
      | some text => simp [attempt_raises read, opened, read]
      | none =>
          rw [attempt_succeeds read]
          simp [opened, read]
          rfl

theorem rewrite_run (scan : List Str → List Str) (message conf : Str) :
    faults.rewrite scan message conf =
      match [FileStep.openToRead, .readLines, .openToWrite].findSome? faults.raises,
          faults.raises .write with
      | some text, _ => (.error text, conf)
      | none, some text => (.error text, (scan (readlines conf)).flatten.take faults.stored)
      | none, none => (.ok message, (scan (readlines conf)).flatten) := by
  have read := readFile_run faults conf
  rw [show [FileStep.openToRead, .readLines, .openToWrite] =
    [FileStep.openToRead, .readLines] ++ [.openToWrite] from rfl, List.findSome?_append]
  cases failed : [FileStep.openToRead, .readLines].findSome? faults.raises with
  | some text =>
      rw [failed] at read
      exact bind_error read
  | none =>
      rw [failed] at read
      rw [FileFaults.rewrite, bind_ok read, FileFaults.openToWrite]
      cases opened : faults.raises .openToWrite with
      | some text =>
          rw [bind_error (attempt_raises opened conf)]
          simp [opened]
      | none =>
          rw [attempt_succeeds opened, bind_ok (set_run [] conf)]
          cases written : faults.raises .write with
          | some text =>
              rw [bind_error (write_raises written _ _)]
              simp [opened]
          | none =>
              rw [bind_ok (write_succeeds written _ _)]
              simp [opened]
              rfl

theorem body_run (faults : FileFaults) (task : ConfTask) (conf : Str) :
    task.body faults conf =
      match task.stepsBefore.findSome? faults.raises, faults.raises .write with
      | some text, _ => (.error text, conf)
      | none, some text =>
          (.error text, task.contentBefore conf ++ (task.data conf).take faults.stored)
      | none, none => (.ok task.message, task.contentBefore conf ++ task.data conf) := by
  cases task with
  | addShare name path validUsers readOnly guestOk =>
      rw [ConfTask.body]
      cases opened : faults.raises .openToAppend with
      | some text =>
          rw [bind_error (attempt_raises opened conf)]
          simp [ConfTask.stepsBefore, opened]
      | none =>
          rw [attempt_succeeds opened, bind_ok (pure_run () conf)]
          cases written : faults.raises .write with
          | some text =>
              rw [bind_error (write_raises written _ _)]
              simp [ConfTask.stepsBefore, opened, ConfTask.contentBefore, ConfTask.rewrites,
                ConfTask.data]
          | none =>
              rw [bind_ok (write_succeeds written _ _)]
              simp [ConfTask.stepsBefore, opened, ConfTask.contentBefore, ConfTask.rewrites,
                ConfTask.data]
              rfl
  | deleteShare shareName => exact rewrite_run _ _ conf
  | updateGlobal newConfig => exact rewrite_run _ _ conf

end Faults

theorem call_succeeds (task : ConfTask) (conf : Str) (faults : FileFaults)
    (fine : ∀ step, faults.raises step = none) :
    task.call faults conf = ((true, task.message), task.apply conf) := by
  have before : task.stepsBefore.findSome? faults.raises = none := by
    rw [List.findSome?_eq_none_iff]
    exact fun step _ => fine step
  rw [ConfTask.call, body_run, before, fine]
  cases task <;> rfl

theorem data_head (task : ConfTask) (conf : Str) (appends : task.rewrites = false) :
    (task.data conf).take 1 = ['\n'] := by
  cases task with
  | addShare name path validUsers readOnly guestOk => rfl
  | deleteShare shareName => cases appends
  | updateGlobal newConfig => cases appends

theorem data_empty (task : ConfTask) (rewrites : task.rewrites = true) : task.data [] = [] := by
  cases task with
  | addShare name path validUsers readOnly guestOk => cases rewrites
  | deleteShare shareName => rfl
  | updateGlobal newConfig => rfl

/-- A failure leaves the file alone, however much a failing write stored, exactly if it
comes before the write or the file was empty and is rewritten. -/
theorem failure_keeps_conf_iff (task : ConfTask) (conf : Str) (raises : FileStep → Option Str) :
    (∀ stored, (task.call ⟨raises, stored⟩ conf).1.1 = false →
        (task.call ⟨raises, stored⟩ conf).2 = conf) ↔
      ¬task.FailsToWrite raises ∨ (task.rewrites = true ∧ conf = []) := by
  have run (stored : Nat) := body_run ⟨raises, stored⟩ task conf
  dsimp only at run
  simp only [ConfTask.call, run, ConfTask.FailsToWrite]
  cases before : task.stepsBefore.findSome? raises with
  | some text => simp
  | none =>
      cases written : raises .write with
      | none => simp
      | some text =>
          simp only [ne_eq, reduceCtorEq, not_false_eq_true, and_self, not_true_eq_false,
            false_or, forall_const]
          constructor
          · intro kept
            cases rewrites : task.rewrites with
            | true =>
                have emptied := kept 0
                simp [ConfTask.contentBefore, rewrites] at emptied
                exact ⟨rfl, emptied⟩
            | false =>
                have grown := kept 1
                simp [ConfTask.contentBefore, rewrites, data_head task conf rewrites] at grown
          · intro ⟨rewrites, empty⟩ stored
            simp [ConfTask.contentBefore, rewrites, empty, data_empty task rewrites]

/-- The disk is full when the share is deleted: the file is empty afterwards. -/
theorem failed_delete_empties_conf : ¬∀ (task : ConfTask) (conf : Str) (faults : FileFaults),
    (task.call faults conf).1.1 = false → (task.call faults conf).2 = conf := by
  intro all
  have kept := all (.deleteShare "a".toList) twoSections
    ⟨fun step => if step = .write then some "No space left on device".toList else none, 0⟩ rfl
  revert kept
  decide +kernel

end SmolNas.App
