import SmolNas.App.Accounts
import SmolNas.App.Files

/-! The views that hand argument lists to `run_sudo_command` or start `sudo` themselves.
Each element of a list is marked as a text of the code or as built from a value of the
request. -/

namespace SmolNas.App

open Py Lib Fs

inductive Arg where
  | fixed (text : Str)
  | built (text : Str)
  deriving DecidableEq, Repr

def Arg.text : Arg → Str
  | fixed text => text
  | built text => text

structure Command where
  program : Arg
  args : List Arg
  deriving DecidableEq, Repr

def Command.list (c : Command) : List Str := c.program.text :: c.args.map Arg.text

/-- An argument list given to `run_sudo_command`, or to `subprocess` with an input. -/
inductive Handed where
  | toSudo (command : Command)
  | direct (command : Command) (input : Str)
  deriving DecidableEq, Repr

def Handed.command : Handed → Command
  | toSudo command => command
  | direct command _ => command

abbrev Hands := Prog Handed Outcome

def handSudo (env : Env) (command : Command) : Hands (Bool × Str) :=
  .ask (.toSudo command) fun outcome =>
    .ret (if env.production = false then (true, "Simulated success".toList)
      else sudoAnswer outcome)

/-- The programs that are started for the lists handed on. -/
def started {A : Type} (env : Env) : Hands A → Proc A
  | .ret a => .ret a
  | .ask (.toSudo command) next =>
      if env.production = false then started env (next (.completed 0 [] []))
      else .ask ⟨finalCmd ("sudo".toList :: command.list), none⟩ fun outcome =>
        started env (next outcome)
  | .ask (.direct command input) next =>
      .ask ⟨"sudo".toList :: "-n".toList :: command.list, some input⟩ fun outcome =>
        started env (next outcome)

section Accounts

def fixedArgs (texts : List String) : List Arg := texts.map fun text => .fixed text.toList

def useradd (username : Str) : Command :=
  ⟨.fixed "useradd".toList, fixedArgs ["-m", "-s", "/bin/bash"] ++ [.built username]⟩

def chpasswd : Command := ⟨.fixed "chpasswd".toList, []⟩

def smbpasswdAdd (username : Str) : Command :=
  ⟨.fixed "smbpasswd".toList, fixedArgs ["-a", "-s"] ++ [.built username]⟩

def AccountRoute.handPassword (username password : Str) (route : AccountRoute) : Hands Unit := do
  let outcome ← Prog.call (.direct chpasswd (chpasswdInput username password))
  match outcome, route with
  | .completed 0 _ _, .addUser =>
      let _ ← Prog.call (.direct (smbpasswdAdd username) (smbpasswdInput password))
      return
  | _, _ => return

/-- The lists that an account route hands on: each program is started after the one
before it has succeeded, and only `useradd` is simulated. -/
def AccountRoute.hands (env : Env) (username password : Str) (route : AccountRoute) :
    Hands Unit := do
  if route.accepts username password then
    let answer ← handSudo env (useradd username)
    if answer.1 && env.production then
      route.handPassword username password

def smbpasswdDelete (username : Str) : Command :=
  ⟨.fixed "smbpasswd".toList, [.fixed "-x".toList, .built username]⟩

def userdel (username : Str) : Command :=
  ⟨.fixed "userdel".toList, [.fixed "-r".toList, .built username]⟩

def isProtectedAccount (env : Env) (username : Str) : Bool :=
  username == env.nasUser || username == "root".toList || username == "nobody".toList

def deleteUser (env : Env) (username : Option Str) : Hands Reply := do
  let username := username.getD []
  if username = [] then
    return ⟨["No username provided.".toList], .redirect .users⟩
  if isProtectedAccount env username then
    return ⟨["Cannot delete protected system account '".toList ++ username ++ "'.".toList],
      .redirect .users⟩
  let _ ← handSudo env (smbpasswdDelete username)
  let (success, msg) ← handSudo env (userdel username)
  if success then
    return ⟨["User '".toList ++ username ++ "' deleted successfully.".toList], .redirect .users⟩
  else
    return ⟨["Error deleting user '".toList ++ username ++ "': ".toList ++ msg], .redirect .users⟩

end Accounts

section Storage

def isDeviceChar (c : Char) : Bool :=
  c.isAlphanum || c == '_' || c == '.' || c == '-'

/-- `[A-Za-z0-9_.-]+` -/
def deviceRe : Re := .plus (.one isDeviceChar)

def isDevice (device : Str) : Bool := deviceRe.fullmatch device && !startswith device ['.']

def devicePath (device : Str) : Str := "/dev/".toList ++ device

/-- Whether the mount point resolves to a place in `/mnt` or `/srv`; no value stands for
a raised `ValueError`. -/
def isMountPlace (t : Tree) (cwd mountpoint : Str) : Option Bool := do
  let norm := normpath mountpoint
  let real ← t.realpath (if isabs norm then norm else pathJoin cwd norm)
  return real == "/mnt".toList || startswith real "/mnt/".toList || real == "/srv".toList ||
    startswith real "/srv/".toList

def mkdir (mountpoint : Str) : Command :=
  ⟨.fixed "mkdir".toList, [.fixed "-p".toList, .built mountpoint]⟩

def mount (device mountpoint : Str) : Command :=
  ⟨.fixed "mount".toList, [.built (devicePath device), .built mountpoint]⟩

def umount (device : Str) : Command := ⟨.fixed "umount".toList, [.built (devicePath device)]⟩

def toStorage (message : Str) : Reply := ⟨[message], .redirect .storage⟩

def mountDisk (env : Env) (t : Tree) (cwd : Str) (device mountpoint : Option Str) :
    Hands (Option Reply) := do
  let device := device.getD []
  let mountpoint := mountpoint.getD []
  if device = [] ∨ mountpoint = [] then
    return some (toStorage "Device and Mountpoint required".toList)
  if isDevice device = false then
    return some (toStorage "Invalid device name.".toList)
  match isMountPlace t cwd mountpoint with
  | none => return none
  | some false => return some (toStorage "Mount point must be in /mnt or /srv".toList)
  | some true =>
      let _ ← handSudo env (mkdir mountpoint)
      let (success, msg) ← handSudo env (mount device mountpoint)
      if success then
        return some (toStorage
          ("Mounted ".toList ++ device ++ " to ".toList ++ mountpoint))
      else
        return some (toStorage ("Error mounting: ".toList ++ msg))

def unmountDisk (env : Env) (device : Option Str) : Hands Reply := do
  let device := device.getD []
  if device = [] ∨ isDevice device = false then
    return toStorage "Invalid device name.".toList
  let (success, msg) ← handSudo env (umount device)
  if success then
    return toStorage ("Unmounted ".toList ++ device)
  else
    return toStorage ("Error unmounting: ".toList ++ msg)

def isDiskChar (c : Char) : Bool := c.isAlphanum || c == '_' || c == '-'

/-- `[A-Za-z0-9_-]+` -/
def diskRe : Re := .plus (.one isDiskChar)

def isLabelChar (c : Char) : Bool :=
  c.isAlphanum || c == '_' || c == ' ' || c == '.' || c == '-'

/-- `[A-Za-z0-9_ .-]{0,31}` -/
def labelRe : Re := .upTo (.one isLabelChar) 31

inductive FsType where
  | ext4
  | ntfs
  | vfat
  deriving DecidableEq, Repr

def FsType.name : FsType → Str
  | ext4 => "ext4".toList
  | ntfs => "ntfs".toList
  | vfat => "vfat".toList

def fsType (value : Str) : Option FsType :=
  [FsType.ext4, .ntfs, .vfat].find? fun kind => kind.name == value

def labelOptions : FsType → List Arg
  | .ext4 => fixedArgs ["-F", "-L"]
  | .ntfs => fixedArgs ["-f", "-L"]
  | .vfat => fixedArgs ["-I", "-n"]

def mkfs (kind : FsType) (label device : Str) : Command :=
  ⟨.built ("mkfs.".toList ++ kind.name),
    labelOptions kind ++ [.built label, .built (devicePath device)]⟩

def formatDisk (env : Env) (device fstype label : Option Str) : Hands Reply := do
  let device := device.getD []
  let label := label.getD "NAS_DISK".toList
  if device = [] ∨ diskRe.fullmatch device = false then
    return toStorage "Invalid device name.".toList
  match fsType (fstype.getD "ext4".toList) with
  | none => return toStorage "Unsupported filesystem type.".toList
  | some kind =>
      if labelRe.fullmatch label = false then
        return toStorage
          "Invalid label: use up to 31 letters, digits, spaces, '.', '-', '_'.".toList
      let (success, msg) ← handSudo env (mkfs kind label device)
      if success then
        return toStorage ("Formatted ".toList ++ device ++ " as ".toList ++ kind.name)
      else
        return toStorage ("Error formatting: ".toList ++ msg)

end Storage

section Machine

def toHealth (message : Str) : Reply := ⟨[message], .redirect .health⟩

def systemctl (action name : Str) : Command :=
  ⟨.fixed "systemctl".toList, [.built action, .built name]⟩

def serviceAction (env : Env) (action name : Str) : Hands Reply := do
  if (["start", "stop", "restart"].map String.toList).contains action = false then
    return toHealth "Invalid action".toList
  if (["smbd", "nmbd", "ssh"].map String.toList).contains name = false then
    return toHealth "Invalid service".toList
  let (success, msg) ← handSudo env (systemctl action name)
  if success then
    return toHealth ("Service ".toList ++ name ++ " ".toList ++ action ++ "ed.".toList)
  else
    return toHealth ("Error: ".toList ++ msg)

def systemPower (env : Env) (action : Option Str) : Hands Reply := do
  if action = some "reboot".toList then
    let _ ← handSudo env ⟨.fixed "reboot".toList, []⟩
    return ⟨["Rebooting...".toList], .redirect .index⟩
  else if action = some "shutdown".toList then
    let _ ← handSudo env ⟨.fixed "shutdown".toList, [.fixed "now".toList]⟩
    return ⟨["Shutting down...".toList], .redirect .index⟩
  else
    return ⟨["Unknown power action.".toList], .redirect .index⟩

def rm (absPath : Str) : Command :=
  ⟨.fixed "rm".toList, [.fixed "-rf".toList, .built absPath]⟩

def handDeleteFile (env : Env) (t : Tree) (cwd path : Str) : Hands FileReply := do
  let reply := deleteFile t cwd path
  match reply with
  | .acts _ absPath =>
      let _ ← handSudo env (rm absPath)
      return reply
  | _ => return reply

def rsync (dryRun : Bool) (source dest : Str) : Command :=
  ⟨.fixed "rsync".toList,
    .fixed "-av".toList :: (if dryRun then [.fixed "--dry-run".toList] else []) ++
      [.built source, .built dest]⟩

/-- `run_backup` up to its log; `dry_run` counts as set unless it is empty. -/
def runBackup (env : Env) (source dest dryRun : Option Str) : Hands Reply := do
  let source := source.getD []
  let dest := dest.getD []
  let dry := !(dryRun.getD []).isEmpty
  if source = [] ∨ dest = [] then
    return ⟨["Source and Destination required".toList], .redirect .backup⟩
  let (success, msg) ← handSudo env (rsync dry source dest)
  if success then
    return ⟨["Backup ".toList ++ (if dry then "simulated".toList else "completed".toList) ++
      ": ".toList ++ msg.take 100 ++ "...".toList], .redirect .backup⟩
  else
    return ⟨["Backup failed: ".toList ++ msg], .redirect .backup⟩

end Machine

end SmolNas.App
