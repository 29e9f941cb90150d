import SmolNas.Lib.Prog
import SmolNas.Py.Str

/-! Programs that the web application starts, and `run_sudo_command`. -/

namespace SmolNas.App

open Py Lib

structure Env where
  production : Bool
  nasUser : Str
  nasPassword : Str

/-- One program started through `subprocess`, with the text written to its
standard input. -/
structure Call where
  args : List Str
  input : Option Str
  deriving DecidableEq, Repr

inductive ErrorKind where
  | timeoutExpired
  | fileNotFound
  | other
  deriving DecidableEq, Repr

inductive Outcome where
  | completed (returncode : Int) (stdout stderr : Str)
  | raised (kind : ErrorKind) (text : Str)
  deriving DecidableEq, Repr

abbrev Proc := Prog Call Outcome

/-- Python's `a or b` on strings. -/
def orElse (a b : Str) : Str := if a = [] then b else a

def sudoAdvice : Str :=
  ("sudo NOPASSWD is not configured for this command. Grant the " ++
    "minimal command list required by the NAS (see README.md, " ++
    "'System Setup' section) via visudo instead of NOPASSWD: ALL.").toList

def finalCmd : List Str → List Str
  | [] => []
  | first :: rest =>
      if first = "sudo".toList then "sudo".toList :: "-n".toList :: rest else first :: rest

def sudoAnswer : Outcome → Bool × Str
  | .completed returncode stdout stderr =>
      if returncode = 0 then (true, orElse (strip stdout) "Success".toList)
      else
        let err := strip (orElse stderr (orElse stdout "Unknown error".toList))
        if contains err "password is required".toList || contains err "password required".toList then
          (false, sudoAdvice)
        else (false, err)
  | .raised .timeoutExpired _ =>
      (false, "Command timed out (15s). Check if the process is hanging.".toList)
  | .raised .fileNotFound _ => (false, "sudo not found on this system.".toList)
  | .raised .other text => (false, text)

/-- Every argument list gets to `subprocess`. It raises before a program is started where a
value has a NUL. -/
def runSudoCommand (env : Env) (cmdList : List Str) : Proc (Bool × Str) :=
  if env.production = false then .ret (true, "Simulated success".toList)
  else .ask ⟨finalCmd cmdList, none⟩ fun outcome => .ret (sudoAnswer outcome)

theorem runSudoCommand_exec (env : Env) (cmdList : List Str) (production : env.production = true)
    (answer : Nat → Outcome) :
    (runSudoCommand env cmdList).exec answer =
      ([⟨finalCmd cmdList, none⟩], sudoAnswer (answer 0)) := by
  rw [runSudoCommand, if_neg (by simp [production])]
  rfl

theorem runSudoCommand_all {P : Call → Prop} (env : Env) (cmdList : List Str)
    (started : P ⟨finalCmd cmdList, none⟩) : (runSudoCommand env cmdList).All P := by
  unfold runSudoCommand
  split
  · trivial
  · exact ⟨started, fun _ => trivial⟩

end SmolNas.App
