import SmolNas.App.Assistant
import SmolNas.App.FileStore
import SmolNas.App.Inspection
import SmolNas.App.Revocation
import SmolNas.App.SmbConf

/-! The web application as a whole: every view behind its guard, over the cookies of all
clients, with what it does to `smb.conf` and to the files and with the programs it starts.
A program may change the configuration and the files. The statistics' cache and the alert's
clock, which decide nothing here, are left out. -/

namespace SmolNas.App

open Py Fs Lib

section Views

structure Site where
  db : CharData
  env : Env
  sanitizer : Sanitizer
  cwd : Str
  /-- `json.loads` -/
  decode : Str → JsonAttempt
  /-- `SN_PASS` is `dummy_password`. -/
  mock : Bool

/-- What programs can change. -/
structure OnDisk where
  conf : Str
  tree : Tree
  contents : Loc → List UInt8

structure Machine where
  attempts : Attempts
  conf : Str
  files : FileState
  tailscaleIp : Option Str
  /-- The programs that the views started, in order. -/
  calls : List Call

/-- A request with all that its view reads, and with what the machine answers. -/
structure Submission where
  endpoint : Endpoint
  method : Method
  form : String → Option Str
  isJson : Bool
  headerToken : Option Str
  remoteAddr : Option Str
  /-- The parts of the path `/service/<action>/<name>`. -/
  action : Str
  name : Str
  /-- The `command` field of the JSON. -/
  command : Option Str
  /-- The client's name of the uploaded file, and its content. -/
  file : Option Str
  body : List UInt8
  saveFault : SaveFault
  rmFault : Option RmFault
  partitions : Option (List Partition)
  /-- `psutil` raises outside of the `try` blocks. -/
  psutilRaises : Bool
  answers : Nat → Outcome
  /-- What the started programs make of the configuration and the files. -/
  aftermath : List Call → OnDisk → OnDisk
  circumstances : Circumstances

namespace Submission

def request (v : Submission) : Request :=
  ⟨v.endpoint, v.method, v.form "csrf_token", v.isJson, v.headerToken, v.remoteAddr,
    v.form "username", v.form "password"⟩

def accountForm (v : Submission) : AccountForm := ⟨v.form "username", v.form "password"⟩

def shareForm (v : Submission) : ShareForm :=
  ⟨v.form "name", v.form "path", v.form "valid_users", v.form "read_only", v.form "guest_ok"⟩

def globalForm (v : Submission) : GlobalForm :=
  ⟨v.form "workgroup", v.form "netbios_name", v.form "min_protocol", v.form "max_protocol",
    v.form "map_to_guest"⟩

/-- What a view with this reply shows. -/
def shown (v : Submission) (reply : Reply) : Circumstances :=
  { v.circumstances with
    messages := reply.flashes
    renders := match reply.page with
      | .redirect _ => false
      | .render _ => true }

end Submission

namespace Machine

def disk (m : Machine) : OnDisk := ⟨m.conf, m.files.tree, m.files.contents⟩

variable (m : Machine) (v : Submission)

def afterCalls (calls : List Call) : Machine :=
  let disk := v.aftermath calls m.disk
  { m with
    conf := disk.conf
    files := { m.files with tree := disk.tree, contents := disk.contents }
    calls := m.calls ++ calls }

def programs {A : Type} (p : Proc A) (shown : A → Circumstances) : Machine × Circumstances :=
  let (calls, reply) := p.exec v.answers
  (if calls = [] then m else m.afterCalls v calls, shown reply)

/-- A view that writes `smb.conf` and has Samba read it again. -/
def rewrites (write : Str → Str × Proc Reply) : Machine × Circumstances :=
  { m with conf := (write m.conf).1 }.programs v (write m.conf).2 v.shown

/-- A view that changes the files, and reports what it has done. -/
def stores (mock : Bool) (files : FileState) : Machine × Circumstances :=
  { m with files }.programs v
    (if files.audit = m.files.audit then .ret () else logAuditEvent mock)
    fun _ => v.circumstances

/-- The history is stored with or without a program. -/
def backsUp (p : Proc Reply) : Machine × Circumstances :=
  (m.afterCalls v (p.exec v.answers).1, v.shown (p.exec v.answers).2)

def index (site : Site) : Machine × Circumstances :=
  let p := askIndex site.env site.decode m.tailscaleIp v.psutilRaises
  let (done, shown) := m.programs v p fun _ => v.circumstances
  ({ done with tailscaleIp := (p.exec v.answers).2 }, shown)

def perform (site : Site) (s : Session) : Machine × Circumstances :=
  match v.endpoint with
  | .login =>
      m.programs v (askLogin site.db site.env v.request v.circumstances m.attempts s) id
  | .signup =>
      m.programs v (signup site.env s.isAuthenticated v.method v.accountForm) v.shown
  | .addUser => m.programs v (addUser site.env v.accountForm) v.shown
  | .deleteUser =>
      m.programs v (started site.env (deleteUser site.env (v.form "username"))) v.shown
  | .storage => m.programs v (askAllDisks site.decode) fun _ => v.circumstances
  | .mountDisk =>
      m.programs v
        (started site.env
          (mountDisk site.env m.files.tree site.cwd (v.form "device") (v.form "mountpoint")))
        fun reply => reply.elim v.circumstances v.shown
  | .unmountDisk =>
      m.programs v (started site.env (unmountDisk site.env (v.form "device"))) v.shown
  | .formatDisk =>
      m.programs v
        (started site.env
          (formatDisk site.env (v.form "device") (v.form "fstype") (v.form "label")))
        v.shown
  | .apiHealthData =>
      m.programs v (askHealthData site.env (rawDevice site.db v.partitions))
        fun _ => v.circumstances
  | .apiStatus =>
      m.programs v
        (askApiStatus site.env site.decode (rawDevice site.db v.partitions) v.psutilRaises)
        fun _ => v.circumstances
  | .serviceAction =>
      m.programs v (started site.env (serviceAction site.env v.action v.name)) v.shown
  | .systemPower =>
      m.programs v (started site.env (systemPower site.env (v.form "action"))) v.shown
  | .index => m.index v site
  | .runBackup =>
      m.backsUp v
        (started site.env
          (runBackup site.env (v.form "source") (v.form "dest") (v.form "dry_run")))
  | .executeCommand => m.programs v (executeCommand site.db v.command) fun _ => v.circumstances
  | .addShare => m.rewrites v (addShare site.db site.env v.shareForm)
  | .deleteShare => m.rewrites v (deleteShare site.env (v.form "name"))
  | .updateSambaGlobal => m.rewrites v (updateSambaGlobal site.env v.globalForm)
  | .uploadFile =>
      m.stores v site.mock
        (m.files.upload site.sanitizer site.cwd (s.userId.getD []) v.file (v.form "path") v.body
          v.saveFault)
  | .deleteFile =>
      let removal := started site.env
        (handDeleteFile site.env m.files.tree site.cwd ((v.form "path").getD []))
      { m with calls := m.calls ++ (removal.exec v.answers).1 }.stores v site.mock
        (m.files.delete site.env site.cwd (s.userId.getD []) (v.form "path") v.rmFault)
  | _ => (m, v.circumstances)

/-- A request, through `csrf_protect` and the guard of its view. -/
def serve (site : Site) (s : Session) : Machine × Session × Served :=
  let (done, shown) := m.perform v site s
  let (attempts, s, served) := App.serve site.db site.env m.attempts s (v.request, shown)
  ({ (if served.ran then done else m) with attempts }, s, served)

end Machine

def appliance (site : Site) : Replay.Server Machine Session Served Submission :=
  ⟨Session.empty, fun m s v => m.serve v site s⟩

end Views

section Guards

variable {db : CharData} {env : Env} {attempts : Attempts} {s : Session} {r : Request}
  {c : Circumstances}

theorem passesAdmin_authenticated (passes : s.passesAdmin = true) : s.isAuthenticated = true := by
  have user := ((passesAdmin_iff s).mp passes).1
  rwa [Session.isAuthenticated, Session.loadUser, Option.isSome_map]

theorem serve_ran (ran : (serve db env attempts s (r, c)).2.2.ran = true) :
    (r.endpoint.guard ≠ .open → s.isAuthenticated = true) ∧
      (r.endpoint.guard = .adminRequired → s.passesAdmin = true) := by
  unfold serve at ran
  dsimp only at ran
  split at ran
  · cases ran
  · cases ran
  · cases ran
  split at ran
  · cases ran
  split at ran
  next unguarded => simp [unguarded]
  next standard =>
    split at ran
    next user => simp [standard, user]
    next => cases ran
  next =>
    split at ran
    next passes => exact ⟨fun _ => passesAdmin_authenticated passes, fun _ => passes⟩
    next => cases ran

theorem serve_user (db : CharData) (env : Env) (attempts : Attempts) (s : Session) (r : Request)
    (c : Circumstances) :
    UserEffect s (serve db env attempts s (r, c)).2.1 (serve db env attempts s (r, c)).2.2 := by
  rcases serve_cases db env attempts s r c with ⟨messages, same⟩ | ⟨same, -⟩
  · rw [same]
    exact .kept rfl (by simp [refused]) rfl
  · rw [same]
    exact body_user db env attempts s r c

theorem serve_endpoint : (serve db env attempts s (r, c)).2.2.endpoint = r.endpoint := by
  rcases serve_cases db env attempts s r c with ⟨messages, same⟩ | ⟨same, -⟩
  · rw [same]
    rfl
  · rw [same]
    unfold body
    split
    next here => exact here.symm
    next here => exact here.symm
    next => rfl

variable (m : Machine) (v : Submission) (site : Site) (s : Session)

theorem machine_effect :
    Effect site.env s (m.serve v site s).2.1 (m.serve v site s).2.2.succeeded :=
  serve_effect site.db site.env m.attempts s (v.request, (m.perform v site s).2)

theorem machine_user : UserEffect s (m.serve v site s).2.1 (m.serve v site s).2.2 :=
  serve_user site.db site.env m.attempts s v.request (m.perform v site s).2

end Guards

section Outsiders

/-- A program that the views start for those who are no administrators. -/
inductive OpenProgram : Call → Prop where
  | adds {username password : Str}
      (accepted : AccountRoute.signup.accepts username password = true) :
      OpenProgram ⟨finalCmd (useraddArgs username), none⟩
  | sets {username password : Str}
      (accepted : AccountRoute.signup.accepts username password = true) :
      OpenProgram ⟨chpasswdArgs, some (chpasswdInput username password)⟩
  | checks {username : Str} (named : loginNameRe.fullmatch username = true) :
      OpenProgram ⟨sshpassArgs username, none⟩
  | looks {args : List Str} (listed : args ∈ [typeArgs, smbstatusJsonArgs, smbstatusArgs,
      tailscaleArgs]) : OpenProgram ⟨args, none⟩
  | dates : OpenProgram ⟨dateArgs, none⟩

def OnDisk.SameStore (before after : OnDisk) : Prop :=
  ∀ loc, nasNames <+: loc →
    after.tree.lstat loc = before.tree.lstat loc ∧ after.contents loc = before.contents loc

/-- What is left by a request that no administrator makes. Only a user who is logged in
changes the store. -/
structure Harmless (before after : Machine) (user : Option Str) : Prop where
  conf : after.conf = before.conf
  store : user = none → before.disk.SameStore after.disk
  objects : ∀ loc node, before.files.tree.lstat loc = some node →
    after.files.tree.lstat loc = some node
  audit : ∃ added, after.files.audit = before.files.audit ++ added ∧
    ∀ event ∈ added, event.action = "File Upload".toList ∧ user = some event.username
  calls : ∃ calls, after.calls = before.calls ++ calls ∧ (∀ call ∈ calls, OpenProgram call) ∧
    (calls = [] → user = none → after.files = before.files)

theorem Harmless.same {before after : Machine} (user : Option Str)
    (conf : after.conf = before.conf) (files : after.files = before.files)
    (calls : after.calls = before.calls) : Harmless before after user where
  conf
  store := by
    intro _ loc _
    simp only [Machine.disk, files, and_self]
  objects := fun loc node found => files ▸ found
  audit := ⟨[], by rw [files, List.append_nil], by simp⟩
  calls := ⟨[], by rw [calls, List.append_nil], by simp, fun _ _ => files⟩

theorem Harmless.trans {first second third : Machine} {user : Option Str}
    (earlier : Harmless first second user) (later : Harmless second third user) :
    Harmless first third user where
  conf := later.conf.trans earlier.conf
  store := by
    intro nobody loc below
    have before := earlier.store nobody loc below
    have after := later.store nobody loc below
    exact ⟨after.1.trans before.1, after.2.trans before.2⟩
  objects := fun loc node found => later.objects loc node (earlier.objects loc node found)
  audit := by
    rcases earlier.audit with ⟨events, logged, own⟩
    rcases later.audit with ⟨more, then', owned⟩
    refine ⟨events ++ more, by rw [then', logged, List.append_assoc], ?_⟩
    intro event member
    exact (List.mem_append.mp member).elim (own event) (owned event)
  calls := by
    rcases earlier.calls with ⟨calls, begun, allowed, still⟩
    rcases later.calls with ⟨more, then', permitted, rest⟩
    refine ⟨calls ++ more, by rw [then', begun, List.append_assoc], ?_, ?_⟩
    · intro call member
      exact (List.mem_append.mp member).elim (allowed call) (permitted call)
    · intro nothing nobody
      rw [List.append_eq_nil_iff] at nothing
      exact (rest nothing.2 nobody).trans (still nothing.1 nobody)

theorem uploadFile_event {s : Sanitizer} {t : Tree} {cwd user message : Str}
    {file path : Option Str} {place : Loc} {event : AuditEvent}
    (saved : uploadFile s t cwd user file path = .saved place message event) :
    event.username = user ∧ event.action = "File Upload".toList := by
  unfold uploadFile at saved
  split at saved
  · cases saved
  dsimp only at saved
  split at saved
  · cases saved
  split at saved
  · cases saved
  split at saved
  · cases saved
  · cases saved
  split at saved
  · cases saved
  · cases saved
    exact ⟨rfl, rfl⟩

variable {site : Site} {m : Machine} {s : Session} {v : Submission}

end Outsiders

section Runs

def Entered (log : List Served) (username : Str) : Prop :=
  ∃ served ∈ log, ∃ password, served.succeeded = some (username, password)

theorem Entered.later {log : List Served} {username : Str} (entered : Entered log username)
    (more : List Served) : Entered (log ++ more) username := by
  rcases entered with ⟨served, member, password, same⟩
  exact ⟨served, List.mem_append_left more member, password, same⟩

variable {site : Site} {m before : Machine} {s : Session} {v : Submission} {log : List Served}

/-- `useradd -m` makes the home directory, if there is a directory for it. -/
def addHome (t : Tree) (call : Call) : Tree :=
  if call.args.contains "useradd".toList then
    t.makeDir ["home".toList] (call.args.getLast?.getD [])
  else t

def homesMade (calls : List Call) (disk : OnDisk) : OnDisk :=
  { disk with tree := calls.foldl addHome disk.tree }

/-- A form with a file, sent to a machine on which every program succeeds. -/
def sent (endpoint : Endpoint) (method : Method) (form : List (String × String)) : Submission where
  endpoint
  method
  form := fun name => (form.lookup name).map String.toList
  isJson := false
  headerToken := none
  remoteAddr := none
  action := []
  name := []
  command := none
  file := some "x".toList
  body := [1]
  saveFault := .none
  rmFault := none
  partitions := none
  psutilRaises := false
  answers := allSucceed
  aftermath := homesMade
  circumstances := quiet

end Runs

end SmolNas.App
