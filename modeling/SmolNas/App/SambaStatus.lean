import SmolNas.Py.JsonText
import SmolNas.Py.Lines
import SmolNas.Py.Words

/-! `get_samba_status`: the sessions and shares that `smbstatus` prints, as JSON or as text. -/

namespace SmolNas.App

open Py Json

section Status

structure SambaSession (α : Type) where
  uid : α
  gid : α
  pid : α
  machine : α
  protocol : α
  deriving DecidableEq, Repr

structure SambaShare (α : Type) where
  service : α
  pid : α
  machine : α
  connectedAt : α
  deriving DecidableEq, Repr

structure SambaStatus (α : Type) where
  shares : List (SambaShare α)
  sessions : List (SambaSession α)
  deriving DecidableEq, Repr

def SambaStatus.empty {α : Type} : SambaStatus α := ⟨[], []⟩

def SambaStatus.map {α β : Type} (f : α → β) (status : SambaStatus α) : SambaStatus β where
  shares := status.shares.map fun s => ⟨f s.service, f s.pid, f s.machine, f s.connectedAt⟩
  sessions := status.sessions.map fun s => ⟨f s.uid, f s.gid, f s.pid, f s.machine, f s.protocol⟩

def devStatus : SambaStatus Str where
  shares := [⟨"NAS".toList, "1234".toList, "192.168.1.50".toList, "Mon Feb 5 10:00:00 2026".toList⟩]
  sessions := [⟨"real_user".toList, "users".toList, "1234".toList, "192.168.1.50".toList,
    "SMB3_11".toList⟩]

end Status

section Text

inductive StatusTable where
  | sessions
  | shares
  deriving DecidableEq, Repr

def isSessionHeader (line : Str) : Bool :=
  startswith line "PID".toList && contains line "Username".toList

def isServiceHeader (line : Str) : Bool :=
  startswith line "Service".toList && contains line "pid".toList

def sessionEntry (parts : List Str) : SambaSession Str where
  uid := parts.getD 1 []
  gid := parts.getD 2 []
  pid := parts.getD 0 []
  machine := parts.getD 3 []
  protocol := if 4 < parts.length then parts.getD 4 [] else "?".toList

def shareEntry (parts : List Str) : SambaShare Str where
  service := parts.getD 0 []
  pid := parts.getD 1 []
  machine := parts.getD 2 []
  connectedAt := join [' '] (parts.drop 3)

abbrev StatusState := Option StatusTable × SambaStatus Str

/-- A row of the table that is open; a row with too few words is passed over. -/
def recordRow (state : StatusState) (parts : List Str) : StatusState :=
  match state.1 with
  | some .sessions =>
      if 4 ≤ parts.length then
        (state.1, { state.2 with sessions := state.2.sessions ++ [sessionEntry parts] })
      else state
  | some .shares =>
      if 3 ≤ parts.length then
        (state.1, { state.2 with shares := state.2.shares ++ [shareEntry parts] })
      else state
  | none => state

def statusStep (state : StatusState) (raw : Str) : StatusState :=
  let line := strip raw
  if line = [] ∨ startswith line ['-'] = true then state
  else if isSessionHeader line then (some .sessions, state.2)
  else if isServiceHeader line then (some .shares, state.2)
  else recordRow state (words line)

def textStatus (out : Str) : SambaStatus Str :=
  ((splitlines out).foldl statusStep (none, .empty)).2

end Text

section Json

/-- The entries of the objects in a `dict`, up to a value that is none, and whether there
is one: its `get` raises. -/
def jsonEntries {β : Type} (entry : Value → (Str → Value) → β) :
    List (Points × Value) → List β × Bool
  | [] => ([], false)
  | (pid, .object pairs) :: rest =>
      let (entries, raised) := jsonEntries entry rest
      (entry (.string pid) (fun key => ((Value.object pairs).get? key).getD .null) :: entries, raised)
  | _ :: _ => ([], true)

/-- The loop over `data.get(key, {})`. -/
def jsonTable {β : Type} (entry : Value → (Str → Value) → β) (key : Str) (data : Value) :
    List β × Bool :=
  match (data.get? key).getD (.object []) with
  | .object items => jsonEntries entry items
  | _ => ([], true)

def jsonStatus (data : Value) : SambaStatus Value :=
  match data with
  | .object _ =>
      let (sessions, raised) := jsonTable (fun pid get =>
        (⟨get "username".toList, get "group".toList, pid, get "remote_machine".toList,
          get "protocol_version".toList⟩ : SambaSession Value)) "sessions".toList data
      if raised then ⟨[], sessions⟩
      else
        let (shares, _) := jsonTable (fun pid get =>
          (⟨get "service".toList, pid, get "machine".toList,
            get "connected_at".toList⟩ : SambaShare Value)) "tcons".toList data
        ⟨shares, sessions⟩
  | _ => .empty

/-- How `smbstatus -j` ends. `unusable` is an exit status other than zero or output that is no
JSON; `raised` is any other exception. -/
inductive JsonAttempt where
  | decoded (data : Value)
  | unusable
  | raised

/-- `found` is the answer of `run_sudo_command` for `type smbstatus`, and `text` the output of
`smbstatus`, unless starting it raises. -/
def getSambaStatus (production found : Bool) (json : JsonAttempt) (text : Option Str) :
    SambaStatus Value :=
  if found = false then .empty
  else if production = false then devStatus.map fun s => .string (points s)
  else
    match json, text with
    | .decoded data, _ => jsonStatus data
    | .raised, _ => .empty
    | .unusable, none => .empty
    | .unusable, some out => (textStatus out).map fun s => .string (points s)

end Json

end SmolNas.App
