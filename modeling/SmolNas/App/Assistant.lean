import SmolNas.App.Commands
import SmolNas.Py.Lines
import SmolNas.Py.Search

/-! `execute_command`: the shell script read off a posted text, the checks it
passes before it runs, and the answer. -/

namespace SmolNas.App

open Py Lib

section Extraction

variable (db : CharData)

/-- `^\d+[.)\s]+` -/
def numberingRe : Re :=
  .seq .bol (.seq (.plus (.one db.isDecimal))
    (.plus (.one fun c => c == '.' || c == ')' || isSpace c)))

/-- `^[^:]+:\s*` -/
def descriptionRe : Re :=
  .seq .bol (.seq (.plus (.one (· != ':'))) (.seq (.lit [':']) (.star .space)))

/-- `sudo\s.+|systemctl\s.+` -/
def describedRe : Re :=
  .alt (.seq (.lit "sudo".toList) (.seq .space (.plus .dot)))
    (.seq (.lit "systemctl".toList) (.seq .space (.plus .dot)))

/-- A trimmed line without its numbering and its description. -/
def cleanLine (line : Str) : Str :=
  let line := strip ((numberingRe db).sub [] line)
  match Re.matchGroup descriptionRe describedRe line with
  | some group => strip group
  | none => line

def commandLines (rawCommand : Str) : List Str :=
  (((splitlines rawCommand).map strip).filter (· != [])).map (cleanLine db)

def shellPrefixes : List Str :=
  ["sudo ", "systemctl ", "ls ", "cat ", "chmod ", "chown ",
    "mkdir ", "smbstatus ", "smbpasswd ", "useradd ", "userdel ",
    "mount ", "umount ", "df ", "du ", "rsync ", "mdadm ",
    "exportfs ", "showmount ", "nfsstat ", "journalctl ", "tail ",
    "grep ", "echo ", "find ", "cp ", "mv ", "rm ", "tar ",
    "apt ", "dpkg ", "service ", "ip ", "ping ", "ss ", "netstat "].map String.toList

def acceptsLine (line : Str) : Bool := shellPrefixes.any (startswith line)

def testsSshd (line : Str) : Bool :=
  contains line "sshd".toList && contains line "-t".toList

def sshdPrerequisite : Str := "sudo -n mkdir -p /run/sshd".toList

def lineCommands (line : Str) : List Str :=
  (if testsSshd line then [sshdPrerequisite] else []) ++ if acceptsLine line then [line] else []

def extractedCommands (rawCommand : Str) : List Str :=
  (commandLines db rawCommand).flatMap lineCommands

def joinCommands (commands : List Str) : Str := join " && ".toList commands

end Extraction

section Filter

variable (db : CharData)

/-- `[\s;&|]` -/
def isCommandStart (c : Char) : Bool := isSpace c || c == ';' || c == '&' || c == '|'

/-- `(^|[\s;&|])` -/
def commandStart : Re := .alt .bol (.one isCommandStart)

def oneOfWords : List Str → Re
  | [] => .one fun _ => false
  | [word] => .lit word
  | word :: words => .alt (.lit word) (oneOfWords words)

def wipeWords : List Str := ["mkfs".toList, "shred".toList, "wipefs".toList]

def powerWords : List Str :=
  ["shutdown".toList, "reboot".toList, "halt".toList, "poweroff".toList, "init".toList]

def isLower (c : Char) : Bool := 'a' ≤ c && c ≤ 'z'

/-- `(^|[\s;&|])(mkfs|shred|wipefs)\b` -/
def wipeRe : Re := .seq commandStart (.seq (oneOfWords wipeWords) (.boundary db))

/-- `\bdd\s+if=` -/
def ddRe : Re :=
  .seq (.boundary db) (.seq (.lit "dd".toList) (.seq (.plus .space) (.lit "if=".toList)))

/-- `(^|[\s;&|])(shutdown|reboot|halt|poweroff|init)\s` -/
def powerRe : Re := .seq commandStart (.seq (oneOfWords powerWords) .space)

/-- The end of `rmRe`: words of a slash, dashes and letters, then slashes, then a
blank or the end of the text. -/
def rootRe : Re :=
  .seq (.star (.seq (.lit ['/']) (.seq (.star (.one (· == '-')))
      (.seq (.star (.one isLower)) (.plus .space)))))
    (.seq (.star (.one (· == '/'))) (.alt .space .eol))

/-- `rm\s+-[a-z]*r[a-z]*f?\s+` and then `rootRe` -/
def removalRe : Re :=
  .seq (.lit "rm".toList) (.seq (.plus .space) (.seq (.lit ['-'])
    (.seq (.star (.one isLower)) (.seq (.lit ['r']) (.seq (.star (.one isLower))
      (.seq (.opt (.lit ['f'])) (.seq (.plus .space) rootRe)))))))

def rmRe : Re := .seq commandStart removalRe

/-- `(sudo\s+-[a-z]*)(su|bash|sh)\b` -/
def sudoShellRe : Re :=
  .seq (.lit "sudo".toList) (.seq (.plus .space) (.seq (.lit ['-']) (.seq (.star (.one isLower))
    (.seq (oneOfWords ["su".toList, "bash".toList, "sh".toList]) (.boundary db)))))

/-- The deny filter, on the lower-cased script. -/
def isDestructive (lc : Str) : Bool :=
  (wipeRe db).search lc || (ddRe db).search lc || powerRe.search lc ||
    contains lc [':', '(', ')', '\x7b'] || rmRe.search lc || (sudoShellRe db).search lc

/-- `\bsudo(?!\s+-n)\s+` -/
def sudoRe : Re :=
  .seq (.boundary db) (.seq (.lit "sudo".toList)
    (.seq (.notAhead (.seq (.plus .space) (.lit "-n".toList))) (.plus .space)))

def sudoRewrite (script : Str) : Str := (sudoRe db).sub "sudo -n ".toList script

end Filter

def noCommand : Str := "No command provided".toList

def nothingFound : Str :=
  ("No executable shell command found in the text. " ++
    "Ask the assistant to output a concrete command, " ++
    "e.g. 'sudo systemctl restart smbd'.").toList

def tooLong : Str := "Command sequence too long.".toList

def destructiveFound : Str :=
  ("Rejected: this command sequence contains a " ++
    "destructive operation that is not allowed " ++ "through the assistant.").toList

def maxScript : Nat := 4000

def checkedScript (db : CharData) (rawCommand : Str) : Str :=
  joinCommands (extractedCommands db rawCommand)

/-- The script that a posted text runs, or the error it is answered with. -/
def scriptOf (db : CharData) (rawCommand : Str) : Except Str Str :=
  if extractedCommands db rawCommand = [] then .error nothingFound
  else
    let script := checkedScript db rawCommand
    if maxScript < script.length then .error tooLong
    else if isDestructive db (db.lower script) then .error destructiveFound
    else .ok (sudoRewrite db script)

inductive ExecuteReply where
  | refused (error : Str)
  | ran (status output : Str) (returncode : Option Int)
  deriving DecidableEq, Repr

def ExecuteReply.httpStatus : ExecuteReply → Nat
  | refused _ => 400
  | ran _ _ _ => 200

def commandOutput (returncode : Int) (stdout stderr : Str) : Str :=
  if stdout ≠ [] ∧ stderr ≠ [] then
    rstrip stdout ++ "\n\n[stderr]\n".toList ++ strip stderr
  else if stdout ≠ [] then stdout
  else if stderr ≠ [] then stderr
  else if returncode ≠ 0 then
    "Command exited with code ".toList ++ (toString returncode).toList ++
      (" and produced no output.\n" ++
        "If this is a sudo command, ensure the minimal NOPASSWD sudoers " ++
        "rule from README.md (\"System Setup\") covers it.").toList
  else "(Command completed successfully with no output — exit code 0)".toList

def executeAnswer : Outcome → ExecuteReply
  | .completed returncode stdout stderr =>
      .ran (if returncode = 0 then "success".toList else "error".toList)
        (commandOutput returncode stdout stderr) (some returncode)
  | .raised .timeoutExpired _ =>
      .ran "error".toList "Command timed out after 120 seconds.".toList none
  | .raised _ text => .ran "error".toList text none

/-- A script run with `shell=True`. -/
def shellCall (script : Str) : Call := ⟨["/bin/sh".toList, "-c".toList, script], none⟩

/-- The view, for the `command` field of the posted JSON if it has one. -/
def executeCommand (db : CharData) (command : Option Str) : Proc ExecuteReply :=
  match command with
  | none => .ret (.refused noCommand)
  | some rawCommand =>
      match scriptOf db rawCommand with
      | .error error => .ret (.refused error)
      | .ok script => .ask (shellCall script) fun outcome => .ret (executeAnswer outcome)

theorem executeCommand_error {db : CharData} {text error : Str}
    (refused : scriptOf db text = .error error) (answer : Nat → Outcome) :
    (executeCommand db (some text)).exec answer = ([], .refused error) := by
  simp only [executeCommand, refused, Prog.exec]

theorem executeCommand_ok {db : CharData} {text script : Str}
    (passed : scriptOf db text = .ok script) (answer : Nat → Outcome) :
    (executeCommand db (some text)).exec answer =
      ([shellCall script], executeAnswer (answer 0)) := by
  simp only [executeCommand, passed, Prog.exec]

/-- Some run of the request starts the script. -/
def Reaches (db : CharData) (text script : Str) : Prop :=
  ∃ answer, shellCall script ∈ ((executeCommand db (some text)).exec answer).1

theorem reaches_iff (db : CharData) (text script : Str) :
    Reaches db text script ↔ scriptOf db text = .ok script := by
  constructor
  · intro given
    rcases given with ⟨answer, member⟩
    cases result : scriptOf db text with
    | error error =>
        rw [executeCommand_error result] at member
        cases member
    | ok started =>
        rw [executeCommand_ok result, List.mem_singleton] at member
        have same : script = started := by simpa [shellCall] using member
        rw [same]
  · intro passed
    refine ⟨fun _ => .completed 0 [] [], ?_⟩
    rw [executeCommand_ok passed]
    exact List.mem_singleton_self _

theorem scriptOf_ok_iff (db : CharData) (text script : Str) :
    scriptOf db text = .ok script ↔
      extractedCommands db text ≠ [] ∧ ¬ maxScript < (checkedScript db text).length ∧
        isDestructive db (db.lower (checkedScript db text)) = false ∧
        sudoRewrite db (checkedScript db text) = script := by
  unfold scriptOf
  dsimp only
  split
  next empty => simp [empty]
  next some =>
    split
    next long => simp [long]
    next short =>
      split
      next found => simp [found]
      next clean => simp [some, short, Bool.eq_false_iff.mpr clean]

/-- A property of all scripts that run, from a condition on the script of the text:
what the filter lets pass has the property wherever the condition holds. -/
theorem reaches_all_iff (db : CharData) (text : Str) {P C : Str → Prop}
    (weaker : ∀ script, P script → C script) (empty : C [])
    (covers : ∀ script, isDestructive db (db.lower script) = false →
      C (sudoRewrite db script) → P (sudoRewrite db script)) :
    (∀ script, Reaches db text script → P script) ↔
      maxScript < (checkedScript db text).length ∨
        isDestructive db (db.lower (checkedScript db text)) = true ∨
        C (sudoRewrite db (checkedScript db text)) := by
  simp only [reaches_iff, scriptOf_ok_iff]
  constructor
  · intro all
    by_cases none : extractedCommands db text = []
    · have nothing : checkedScript db text = [] := by rw [checkedScript, none]; rfl
      rw [nothing]
      exact .inr (.inr empty)
    by_cases long : maxScript < (checkedScript db text).length
    · exact .inl long
    cases clean : isDestructive db (db.lower (checkedScript db text)) with
    | true => exact .inr (.inl rfl)
    | false => exact .inr (.inr (weaker _ (all _ ⟨none, long, clean, rfl⟩)))
  · intro condition script given
    rcases given with ⟨-, short, clean, rfl⟩
    rcases condition with long | found | covered
    · exact absurd long short
    · rw [clean] at found
      cases found
    · exact covers _ clean covered

end SmolNas.App
