import SmolNas.App.BackupRecords
import SmolNas.App.BackupSteps

/-! What the history file holds along every run of `_append_backup_history` calls. -/

namespace SmolNas.App

open Py

section Invariant

variable {ι J : Type} [DecidableEq ι] {json : ListJson J} {record : ι → J} {s : HistoryState ι J}

theorem advance_written {i : ι} {history : List J} {stored : Nat}
    (here : s.phase i = .written history) :
    s.advance json record i false stored = s.replaced i := by
  rw [HistoryState.advance, here]
  rfl

theorem faithful_along_iff (events : List (AppendEvent ι)) (s : HistoryState ι J)
    (inv : HistoryInv json record s) :
    s.FaithfulAlong json record events ↔ s.SightedAlong json record events := by
  induction events generalizing s with
  | nil => exact iff_of_true inv.faithful trivial
  | cons e events ih =>
      by_cases sighted : s.Sighted e
      · have rest := ih (s.step json record e) (inv_step inv sighted)
        rw [HistoryState.FaithfulAlong, HistoryState.SightedAlong, rest]
        exact and_congr (iff_of_true inv.faithful sighted) Iff.rfl
      · rcases not_sighted sighted with ⟨i, history, stored, same, here, blind⟩
        have lost : ¬(s.step json record e).Faithful json record := by
          rw [same, HistoryState.step, advance_written here]
          exact replace_blind inv here blind
        constructor
        · intro along
          have next := along.2
          cases events with
          | nil => exact absurd next lost
          | cons d events => exact absurd next.1 lost
        · intro along
          exact absurd along.1 sighted

theorem faithful_run (events : List (AppendEvent ι)) (s : HistoryState ι J)
    (along : s.FaithfulAlong json record events) :
    (s.run json record events).Faithful json record := by
  induction events generalizing s with
  | nil => exact along
  | cons e events ih => exact ih (s.step json record e) along.2

theorem inv_run (events : List (AppendEvent ι)) (s : HistoryState ι J)
    (inv : HistoryInv json record s) (sighted : s.SightedAlong json record events) :
    HistoryInv json record (s.run json record events) := by
  induction events generalizing s with
  | nil => exact inv
  | cons e events ih => exact ih (s.step json record e) (inv_step inv sighted.1) sighted.2

theorem blind_step {e : AppendEvent ι} (clear : ∀ i, s.blind i = false) (reads : s.Reads e)
    (i : ι) : (s.step json record e).blind i = false := by
  cases e with
  | crash => exact clear i
  | step j fails stored =>
      rw [HistoryState.step, HistoryState.advance]
      cases here : s.phase j with
      | locked =>
          dsimp only
          by_cases own : i = j
          · rw [own, Function.update_self]
            cases file : s.file with
            | none =>
                rw [loadBackupHistory]
                exact Bool.and_false fails
            | some text => rw [reads here (by simp [file]), Bool.false_and]
          · rw [Function.update_of_ne own]
            exact clear i
      | waiting =>
          dsimp only
          split
          · exact clear i
          · exact clear i
      | loaded history => cases fails <;> exact clear i
      | writing history =>
          dsimp only
          split
          · exact clear i
          · split
            · exact clear i
            · exact clear i
      | written history => cases fails <;> exact clear i
      | finishing => exact clear i
      | done => exact clear i

theorem blind_run (events : List (AppendEvent ι)) (s : HistoryState ι J)
    (clear : ∀ i, s.blind i = false) (reads : s.ReadsAlong json record events) :
    ∀ i, (s.run json record events).blind i = false := by
  induction events generalizing s with
  | nil => exact clear
  | cons e events ih => exact ih (s.step json record e) (blind_step clear reads.1) reads.2

theorem sighted_of_reads (events : List (AppendEvent ι)) (s : HistoryState ι J)
    (clear : ∀ i, s.blind i = false) (reads : s.ReadsAlong json record events) :
    s.SightedAlong json record events := by
  induction events generalizing s with
  | nil => trivial
  | cons e events ih =>
      constructor
      · cases e with
        | crash => trivial
        | step i fails stored => exact fun _ _ => clear i
      · exact ih (s.step json record e) (blind_step clear reads.1) reads.2

end Invariant

section Runs

variable {ι J : Type} [DecidableEq ι] (json : ListJson J) (record : ι → J)
  (temporary : Option Str) (events : List (AppendEvent ι))

/-- The file is absent or holds the last 200 persisted records after every run; and wherever a
call's replacement of the file succeeds next, its record is added to these. -/
theorem history_faithful
    (reads : (HistoryState.start temporary).ReadsAlong json record events) :
    let s := (HistoryState.start temporary).run json record events
    s.Faithful json record ∧ ∀ i history stored, s.phase i = .written history →
      let next := s.step json record (.step i false stored)
      next.records record = s.records record ++ [record i] ∧ next.Faithful json record := by
  have sighted := sighted_of_reads events _ (fun _ => rfl) reads
  have inv := inv_run events _ (inv_start temporary) sighted
  refine ⟨inv.faithful, ?_⟩
  intro i history stored here
  have clear := blind_run events _ (fun _ => rfl) reads i
  dsimp only
  rw [HistoryState.step, advance_written here]
  exact ⟨replaced_records inv here, (inv_replace inv here clear).faithful⟩

theorem history_kept_iff :
    (HistoryState.start temporary).FaithfulAlong json record events ↔
      (HistoryState.start temporary).SightedAlong json record events :=
  faithful_along_iff events _ (inv_start temporary)

end Runs

def backupRecord (details : String) : BackupRecord :=
  ⟨"2025-01-01 00:00:00".toList, "Success".toList, details.toList⟩

def twoRecords : Fin 2 → BackupRecord
  | 0 => backupRecord "Source: /srv/a -> Dest: /mnt/a. Simulated success..."
  | 1 => backupRecord "Source: /srv/b -> Dest: /mnt/b. Simulated success..."

def firstCall : Fin 2 := ⟨0, by decide⟩

def secondCall : Fin 2 := ⟨1, by decide⟩

/-- The first call persists while the second waits; the second fails in the middle of its
write, and the process crashes. -/
def crashAfterFirst : List (AppendEvent (Fin 2)) :=
  [.step firstCall false 0, .step secondCall false 0, .step firstCall false 0,
    .step firstCall false 0, .step firstCall false 1000, .step firstCall false 0,
    .step firstCall false 0, .step secondCall false 0, .step secondCall false 0,
    .step secondCall false 0, .step secondCall true 7, .crash]

/-- The second call is about to replace the file that the first has left. -/
def beforeSecond : List (AppendEvent (Fin 2)) :=
  [.step firstCall false 0, .step secondCall false 0, .step firstCall false 0,
    .step firstCall false 0, .step firstCall false 1000, .step firstCall false 0,
    .step firstCall false 0, .step secondCall false 0, .step secondCall false 0,
    .step secondCall false 0, .step secondCall false 1000]

theorem history_faithful_crash :
    ((HistoryState.start none).run backupJson twoRecords crashAfterFirst).Faithful
        backupJson twoRecords ∧
      (((HistoryState.start none).run backupJson twoRecords beforeSecond).step backupJson twoRecords
        (.step secondCall false 0)).records twoRecords =
        ((HistoryState.start none).run backupJson twoRecords beforeSecond).records twoRecords ++
          [twoRecords secondCall] := by
  have before := history_faithful backupJson twoRecords none beforeSecond (by decide +kernel)
  exact ⟨(history_faithful backupJson twoRecords none crashAfterFirst (by decide +kernel)).1,
    (before.2 secondCall [twoRecords firstCall, twoRecords secondCall] 0 (by decide +kernel)).1⟩

/-- One call after the other; the second cannot read the file. -/
def unreadHistory : List (AppendEvent (Fin 2)) :=
  [.step firstCall false 0, .step firstCall false 0, .step firstCall false 0,
    .step firstCall false 1000, .step firstCall false 0, .step firstCall false 0,
    .step secondCall false 0, .step secondCall true 0, .step secondCall false 0,
    .step secondCall false 1000, .step secondCall false 0]

/-- The first record is gone afterwards. -/
theorem unread_history_lost : ¬∀ (J : Type) (json : ListJson J) (k : Nat) (record : Fin k → J)
    (temporary : Option Str) (events : List (AppendEvent (Fin k))),
      (HistoryState.start temporary).FaithfulAlong json record events := by
  intro all
  have final := faithful_run _ _ (all BackupRecord backupJson 2 twoRecords none unreadHistory)
  revert final
  decide +kernel

end SmolNas.App
