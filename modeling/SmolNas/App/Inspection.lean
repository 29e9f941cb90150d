import SmolNas.App.DiskHealth
import SmolNas.App.Login
import SmolNas.App.SambaStatus
import SmolNas.App.TailscaleIp

/-! The programs that views start to look at the machine, to check a password and to date an
audit event. -/

namespace SmolNas.App

open Py Json Lib

section Reading

/-- What `check_output` returns, unless it raises. -/
def checkOutput : Outcome → Option Str
  | .completed returncode stdout _ => if returncode = 0 then some stdout else none
  | .raised _ _ => none

def typeArgs : List Str := ["type".toList, "smbstatus".toList]

def smbstatusArgs : List Str := ["sudo".toList, "smbstatus".toList]

def smbstatusJsonArgs : List Str := ["sudo".toList, "smbstatus".toList, "-j".toList]

/-- `decode` is `json.loads`. -/
def jsonAttempt (decode : Str → JsonAttempt) : Outcome → JsonAttempt
  | .completed returncode stdout _ => if returncode = 0 then decode stdout else .unusable
  | .raised _ _ => .raised

def askSambaStatus (env : Env) (decode : Str → JsonAttempt) : Proc (SambaStatus Value) := do
  let (found, _) ← runSudoCommand env typeArgs
  if found = false ∨ env.production = false then
    return getSambaStatus env.production found .raised none
  match jsonAttempt decode (← Prog.call ⟨smbstatusJsonArgs, none⟩) with
  | .unusable =>
      let text ← Prog.call ⟨smbstatusArgs, none⟩
      return getSambaStatus true true .unusable (checkOutput text)
  | attempt => return getSambaStatus true true attempt none

def tailscaleArgs : List Str := ["tailscale".toList, "ip".toList, "-4".toList]

def tailscaleOutcome : Outcome → TailscaleOutcome
  | .completed returncode stdout _ => if returncode = 0 then .printed stdout else .failed
  | .raised .fileNotFound _ => .notFound
  | .raised _ _ => .raised

/-- `ip` is `TAILSCALE_IP`. -/
def askTailscaleIp (env : Env) (ip : Option Str) : Proc Str :=
  if ip.getD [] ≠ [] then .ret (ip.getD [])
  else if env.production = false then .ret (tailscaleText false .raised)
  else
    .ask ⟨tailscaleArgs, none⟩ fun outcome =>
      .ret (tailscaleText true (tailscaleOutcome outcome))

/-- `index`, with what `TAILSCALE_IP` is afterwards. It does not get to it where `psutil`
raises. -/
def askIndex (env : Env) (decode : Str → JsonAttempt) (ip : Option Str) (psutilRaises : Bool) :
    Proc (Option Str) := do
  let _ ← askSambaStatus env decode
  if psutilRaises then
    return ip
  let text ← askTailscaleIp env ip
  return some text

end Reading

section Disks

def lsblkArgs : List Str :=
  ["lsblk", "-J", "-o", "NAME,SIZE,FSTYPE,MOUNTPOINT,TYPE,MODEL,UUID"].map String.toList

def isLoopOrRom (device : Value) : Bool :=
  match device.get? "type".toList with
  | some (.string s) => s == points "loop".toList || s == points "rom".toList
  | _ => false

/-- The devices that the loop keeps, and whether it raises at one that is no `dict`. -/
def keptDevices : List Value → List Value × Bool
  | [] => ([], false)
  | device :: rest =>
      if device.isObject = false then ([], true)
      else
        let (kept, raised) := keptDevices rest
        (if isLoopOrRom device then kept else device :: kept, raised)

/-- The loop over `data.get('blockdevices', [])`. An empty text or `dict` is passed over too. -/
def blockDevices (data : Value) : List Value × Bool :=
  if data.isObject = false then ([], true)
  else
    match (data.get? "blockdevices".toList).getD (.array []) with
    | .array items => keptDevices items
    | .object [] | .string [] => ([], false)
    | _ => ([], true)

def lsblkDevices (decode : Str → JsonAttempt) (outcome : Outcome) : List Value × Bool :=
  match jsonAttempt decode outcome with
  | .decoded data => blockDevices data
  | .unusable | .raised => ([], true)

/-- `get_all_disks_lsblk`. What the first loop has kept stays in the list. -/
def askAllDisks (decode : Str → JsonAttempt) : Proc (List Value) := do
  let (disks, raised) := lsblkDevices decode (← Prog.call ⟨lsblkArgs, none⟩)
  if raised = false then
    return disks
  let (more, raised) := lsblkDevices decode (← Prog.call ⟨"sudo".toList :: lsblkArgs, none⟩)
  if raised = false then
    return disks ++ more
  return []

def smartctlArgs (rawDevice : Str) : List Str :=
  ["sudo", "-n", "smartctl", "-H", "-i", "-A", "-j"].map String.toList ++ [rawDevice]

def smartCall : Outcome → SmartCall
  | .completed returncode stdout _ => if returncode = 0 then .completed stdout else .failed stdout
  | .raised .fileNotFound _ => .notFound
  | .raised _ _ => .raised

def askDiskHealth (env : Env) (rawDevice : Str) : Proc SmartCall :=
  if env.production = false then .ret .raised
  else .ask ⟨smartctlArgs rawDevice, none⟩ fun outcome => .ret (smartCall outcome)

def askEach : List (List Str) → Proc Unit
  | [] => .ret ()
  | args :: rest => .ask ⟨args, none⟩ fun _ => askEach rest

def isActiveArgs (service : Str) : List Str :=
  ["systemctl".toList, "is-active".toList, service]

def journalctlArgs : List Str :=
  ["journalctl", "-n", "30", "--output=short-iso", "--no-pager"].map String.toList

def askHealthData (env : Env) (rawDevice : Str) : Proc Unit := do
  let _ ← askDiskHealth env rawDevice
  askEach ((["smbd", "nmbd", "ssh"].map fun service => isActiveArgs service.toList) ++
    [journalctlArgs])

def askApiStatus (env : Env) (decode : Str → JsonAttempt) (rawDevice : Str) (psutilRaises : Bool) :
    Proc Unit := do
  if psutilRaises then
    return
  let _ ← askSambaStatus env decode
  let _ ← askDiskHealth env rawDevice
  return

end Disks

section Login

def sshpassArgs (username : Str) : List Str :=
  ["sshpass", "-e", "ssh", "-o", "StrictHostKeyChecking=no", "-o",
    "PreferredAuthentications=password"].map String.toList ++
    [username ++ "@localhost".toList, "id".toList]

variable (db : CharData) (env : Env) (r : Request) (c : Circumstances) (attempts : Attempts)
  (s : Session)

def checksSystem : Bool :=
  let username := r.username.getD []
  let attemptKey := (db.lower username, orElse (r.remoteAddr.getD []) "unknown".toList)
  !s.isAuthenticated && r.method == .post && loginNameRe.fullmatch username &&
    !(isLoginLocked c.now attemptKey attempts).1 &&
    !decide (username = env.nasUser ∧ r.password.getD [] = env.nasPassword) && env.production

/-- `login`, which goes on with the answer of `sshpass`. -/
def askLogin : Proc Circumstances :=
  if checksSystem db env r c attempts s then
    .ask ⟨sshpassArgs (r.username.getD []), none⟩ fun outcome => .ret { c with sshpass := outcome }
  else .ret c

/-- Where `sshpass` is not started, its answer does not matter. -/
theorem login_unchecked (unchecked : checksSystem db env r c attempts s = false)
    (outcome : Outcome) :
    login db env r { c with sshpass := outcome } attempts s = login db env r c attempts s := by
  unfold login
  split
  · rfl
  next fresh =>
    split
    · rfl
    next post =>
      dsimp only
      split
      · rfl
      next named =>
        split
        · rfl
        next unlocked =>
          split
          · rfl
          next other =>
            have dev : env.production = false := by
              have sent : r.method = .post := by
                cases method : r.method with
                | get => exact absurd method post
                | post => rfl
              rw [Bool.not_eq_true] at fresh unlocked
              rw [Bool.not_eq_false] at named
              rw [checksSystem, fresh, sent, named, unlocked, decide_eq_false other] at unchecked
              exact unchecked
            simp only [systemCheck, if_pos dev]

end Login

section Events

def dateArgs : List Str := ["/bin/sh".toList, "-c".toList, "date".toList]

/-- `log_audit_event`: without credentials it only prints the event. -/
def logAuditEvent (mock : Bool) : Proc Unit :=
  if mock then .ret ()
  else .ask ⟨dateArgs, none⟩ fun _ => .ret ()

end Events

end SmolNas.App
