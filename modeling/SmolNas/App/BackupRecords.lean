import SmolNas.App.BackupHistory
import SmolNas.Py.Json

/-! The records of `run_backup` as `json.dump(history, f, indent=2)` lays them out, and
what reads them back. -/

namespace SmolNas.App

open Py

structure BackupRecord where
  time : Str
  status : Str
  details : Str
  deriving DecidableEq, Repr

namespace BackupRecord

def timeLiteral : Str := "\x7b\n    \"time\": ".toList

def statusLiteral : Str := ",\n    \"status\": ".toList

def detailsLiteral : Str := ",\n    \"details\": ".toList

def endLiteral : Str := "\n  \x7d".toList

def text (r : BackupRecord) : Str :=
  timeLiteral ++ (Json.quote r.time ++ (statusLiteral ++ (Json.quote r.status ++
    (detailsLiteral ++ (Json.quote r.details ++ endLiteral)))))

def dumpMore : List BackupRecord → Str
  | [] => "\n]".toList
  | r :: history => ",\n  ".toList ++ (r.text ++ dumpMore history)

def dump : List BackupRecord → Str
  | [] => "[]".toList
  | r :: history => "[\n  ".toList ++ (r.text ++ dumpMore history)

def expect (literal s : Str) : Option Str :=
  if literal.isPrefixOf s then some (s.drop literal.length) else none

def readField (literal s : Str) : Option (Str × Str) := (expect literal s).bind Json.unquote

def read (s : Str) : Option (BackupRecord × Str) :=
  (readField timeLiteral s).bind fun (time, s) =>
    (readField statusLiteral s).bind fun (status, s) =>
      (readField detailsLiteral s).bind fun (details, s) =>
        (expect endLiteral s).map fun s => (⟨time, status, details⟩, s)

def readMore : Nat → Str → Option (List BackupRecord)
  | 0, _ => none
  | fuel + 1, s =>
      match expect ",\n  ".toList s with
      | none => if s = "\n]".toList then some [] else none
      | some s => do
          let (r, s) ← read s
          let history ← readMore fuel s
          return r :: history

def load (s : Str) : Option (List BackupRecord) :=
  if s = "[]".toList then some []
  else do
    let s ← expect "[\n  ".toList s
    let (r, s) ← read s
    let history ← readMore s.length s
    return r :: history

theorem expect_append (literal s : Str) : expect literal (literal ++ s) = some s := by
  have found : literal.isPrefixOf (literal ++ s) = true := by simp
  rw [expect, if_pos found, List.drop_left]

theorem readField_quote (literal value s : Str) :
    readField literal (literal ++ (Json.quote value ++ s)) = some (value, s) := by
  rw [readField, expect_append, Option.bind_some, Json.unquote_quote]

theorem read_text (r : BackupRecord) (s : Str) : read (r.text ++ s) = some (r, s) := by
  simp only [read, text, List.append_assoc, readField_quote, Option.bind_some, expect_append,
    Option.map_some]

theorem readMore_dumpMore (history : List BackupRecord) (fuel : Nat)
    (enough : history.length < fuel) : readMore fuel (dumpMore history) = some history := by
  induction history generalizing fuel with
  | nil =>
      cases fuel with
      | zero => cases enough
      | succ fuel => rfl
  | cons r history ih =>
      cases fuel with
      | zero => cases enough
      | succ fuel =>
          have later := ih fuel (Nat.lt_of_succ_lt_succ enough)
          rw [readMore, dumpMore, expect_append]
          simp [read_text, later]

theorem length_lt_dumpMore (history : List BackupRecord) :
    history.length < (dumpMore history).length := by
  induction history with
  | nil => decide
  | cons r history ih =>
      rw [dumpMore, List.length_append, List.length_append, List.length_cons]
      have comma : (",\n  ".toList).length = 4 := rfl
      omega

theorem load_dump (history : List BackupRecord) : load (dump history) = some history := by
  cases history with
  | nil => rfl
  | cons r history =>
      have other : dump (r :: history) ≠ "[]".toList := by
        intro same
        have second := congrArg (·[1]?) same
        cases second
      have more := readMore_dumpMore history (dumpMore history).length (length_lt_dumpMore history)
      rw [load, if_neg other, dump, expect_append]
      simp [read_text, more]

end BackupRecord

def backupJson : ListJson BackupRecord :=
  ⟨BackupRecord.dump, BackupRecord.load, BackupRecord.load_dump⟩

end SmolNas.App
