import SmolNas.App.SudoRoutes

/-! Which values of a request a privileged program reads as options. -/

namespace SmolNas.App

open Py Lib Fs

section Options

def isDashed (s : Str) : Bool := startswith s ['-']

/-- The options of the started programs that take the next element as their argument. -/
def takesValue : List (Str × Str) :=
  [("useradd".toList, "-s".toList), ("mkfs.ext4".toList, "-L".toList),
    ("mkfs.ntfs".toList, "-L".toList), ("mkfs.vfat".toList, "-n".toList)]

/-- No element built from a value of the request looks like an option, unless it follows
an option that takes it. -/
def argsFree (program : Str) : Str → List Arg → Bool
  | _, [] => true
  | _, .fixed text :: args => argsFree program text args
  | before, .built text :: args =>
      (!isDashed text || takesValue.contains (program, before)) && argsFree program text args

attribute [simp] argsFree

def Command.optionFree (c : Command) : Bool :=
  argsFree c.program.text "sudo".toList (c.program :: c.args)

end Options

inductive SudoRequest where
  | account (route : AccountRoute) (username password : Str)
  | deleteUser (username : Option Str)
  | mountDisk (device mountpoint : Option Str)
  | unmountDisk (device : Option Str)
  | formatDisk (device fstype label : Option Str)
  | serviceAction (action name : Str)
  | systemPower (action : Option Str)
  | deleteFile (path : Str)
  | runBackup (source dest dryRun : Option Str)
  deriving DecidableEq, Repr

namespace SudoRequest

variable (env : Env) (t : Tree) (cwd : Str)

def hands : SudoRequest → Hands Unit
  | account route username password => route.hands env username password
  | deleteUser username => (App.deleteUser env username).bind fun _ => .ret ()
  | mountDisk device mountpoint =>
      (App.mountDisk env t cwd device mountpoint).bind fun _ => .ret ()
  | unmountDisk device => (App.unmountDisk env device).bind fun _ => .ret ()
  | formatDisk device fstype label => (App.formatDisk env device fstype label).bind fun _ => .ret ()
  | serviceAction action name => (App.serviceAction env action name).bind fun _ => .ret ()
  | systemPower action => (App.systemPower env action).bind fun _ => .ret ()
  | deleteFile path => (handDeleteFile env t cwd path).bind fun _ => .ret ()
  | runBackup source dest dryRun =>
      (App.runBackup env source dest dryRun).bind fun _ => .ret ()

/-- Whatever the started programs answer, no value of the request is read as an option. -/
def OptionFree (request : SudoRequest) : Prop :=
  ∀ answer, ∀ handed ∈ ((request.hands env t cwd).exec answer).1,
    handed.command.optionFree = true

/-- Three views check the values they hand on only in part. -/
def Plain : SudoRequest → Prop
  | deleteUser username =>
      isProtectedAccount env (username.getD []) = false → isDashed (username.getD []) = false
  | mountDisk device mountpoint =>
      isDevice (device.getD []) = true → isMountPlace t cwd (mountpoint.getD []) = some true →
        isDashed (mountpoint.getD []) = false
  | runBackup source dest _ =>
      source.getD [] ≠ [] → dest.getD [] ≠ [] →
        isDashed (source.getD []) = false ∧ isDashed (dest.getD []) = false
  | _ => True

end SudoRequest

section Commands

theorem username_not_dashed {username : Str} (valid : usernameRe.fullmatch username = true) :
    isDashed username = false := by
  cases username with
  | nil => rfl
  | cons c rest =>
      by_cases dash : c = '-'
      · subst dash
        have refused : usernameRe.fullmatch ('-' :: rest) = false := rfl
        rw [refused] at valid
        cases valid
      · simp [isDashed, startswith, List.isPrefixOf, Ne.symm dash]

theorem devicePath_not_dashed (device : Str) : isDashed (devicePath device) = false := rfl

theorem useradd_free (username : Str) :
    (useradd username).optionFree = !isDashed username := by
  simp [Command.optionFree, useradd, fixedArgs, argsFree, Arg.text, takesValue]

theorem smbpasswdAdd_free (username : Str) :
    (smbpasswdAdd username).optionFree = !isDashed username := by
  simp [Command.optionFree, smbpasswdAdd, fixedArgs, argsFree, Arg.text, takesValue]

theorem smbpasswdDelete_free (username : Str) :
    (smbpasswdDelete username).optionFree = !isDashed username := by
  simp [Command.optionFree, smbpasswdDelete, argsFree, Arg.text, takesValue]

theorem userdel_free (username : Str) :
    (userdel username).optionFree = !isDashed username := by
  simp [Command.optionFree, userdel, argsFree, Arg.text, takesValue]

theorem mkdir_free (mountpoint : Str) :
    (mkdir mountpoint).optionFree = !isDashed mountpoint := by
  simp [Command.optionFree, mkdir, argsFree, Arg.text, takesValue]

theorem mount_free (device mountpoint : Str) :
    (mount device mountpoint).optionFree = !isDashed mountpoint := by
  simp [Command.optionFree, mount, argsFree, Arg.text, takesValue, devicePath_not_dashed]

theorem umount_free (device : Str) : (umount device).optionFree = true := by
  simp [Command.optionFree, umount, argsFree, Arg.text, devicePath_not_dashed]

theorem mkfs_free (kind : FsType) (label device : Str) :
    (mkfs kind label device).optionFree = true := by
  cases kind with
  | ext4 =>
      simp [Command.optionFree, mkfs, labelOptions, fixedArgs, argsFree, Arg.text,
        devicePath_not_dashed]
      exact ⟨.inl rfl, .inr (by decide)⟩
  | ntfs =>
      simp [Command.optionFree, mkfs, labelOptions, fixedArgs, argsFree, Arg.text,
        devicePath_not_dashed]
      exact ⟨.inl rfl, .inr (by decide)⟩
  | vfat =>
      simp [Command.optionFree, mkfs, labelOptions, fixedArgs, argsFree, Arg.text,
        devicePath_not_dashed]
      exact ⟨.inl rfl, .inr (by decide)⟩

theorem systemctl_free {action name : Str}
    (actions : (["start", "stop", "restart"].map String.toList).contains action = true)
    (names : (["smbd", "nmbd", "ssh"].map String.toList).contains name = true) :
    (systemctl action name).optionFree = true := by
  have plain : ∀ word ∈ (["start", "stop", "restart", "smbd", "nmbd", "ssh"].map String.toList),
      isDashed word = false := by decide
  have first : isDashed action = false := by
    apply plain
    simp at actions
    simp
    tauto
  have second : isDashed name = false := by
    apply plain
    simp at names
    simp
    tauto
  simp [Command.optionFree, systemctl, argsFree, Arg.text, first, second]

theorem rm_free {absPath : Str} (absolute : isabs absPath = true) :
    (rm absPath).optionFree = true := by
  have plain : isDashed absPath = false := by
    cases absPath with
    | nil => rfl
    | cons c rest =>
        simp [isabs, startswith, List.isPrefixOf] at absolute
        simp [isDashed, startswith, List.isPrefixOf, ← absolute]
  simp [Command.optionFree, rm, argsFree, Arg.text, plain]

theorem rsync_free (dryRun : Bool) (source dest : Str) :
    (rsync dryRun source dest).optionFree = (!isDashed source && !isDashed dest) := by
  cases dryRun <;> simp [Command.optionFree, rsync, argsFree, Arg.text, takesValue]

end Commands

section Views

variable {env : Env} {t : Tree} {cwd : Str} {P : Handed → Prop}

theorem handSudo_all {command : Command} (holds : P (.toSudo command)) :
    (handSudo env command).All P :=
  ⟨holds, fun _ => trivial⟩

theorem handThen_all {A : Type} {command : Command} {next : Bool × Str → Hands A}
    (holds : P (.toSudo command)) (later : ∀ answer, (next answer).All P) :
    ((handSudo env command).bind next).All P :=
  Prog.all_bind (handSudo_all holds) later

theorem handPassword_all {username password : Str} {route : AccountRoute}
    (second : P (.direct chpasswd (chpasswdInput username password)))
    (third : P (.direct (smbpasswdAdd username) (smbpasswdInput password))) :
    (route.handPassword username password).All P := by
  refine ⟨second, fun outcome => ?_⟩
  dsimp only [Prog.bind]
  split
  · exact ⟨third, fun _ => trivial⟩
  · trivial

theorem account_all {username password : Str} {route : AccountRoute}
    (all : usernameRe.fullmatch username = true → P (.toSudo (useradd username)) ∧
      (route.handPassword username password).All P) :
    (route.hands env username password).All P := by
  unfold AccountRoute.hands
  split
  next accepted =>
    have valid : usernameRe.fullmatch username = true := by
      cases route <;> simp [AccountRoute.accepts] at accepted <;> exact accepted.1
    apply handThen_all (all valid).1
    intro answer
    split
    · exact (all valid).2
    · trivial
  next => trivial

theorem deleteUser_all {username : Option Str}
    (each : isProtectedAccount env (username.getD []) = false →
      P (.toSudo (smbpasswdDelete (username.getD []))) ∧ P (.toSudo (userdel (username.getD [])))) :
    (deleteUser env username).All P := by
  unfold deleteUser
  dsimp only
  split
  · trivial
  · split
    · trivial
    next free =>
      have both := each (by simpa using free)
      apply handThen_all both.1
      intro _
      apply handThen_all both.2
      intro answer
      rcases answer with ⟨success, msg⟩
      cases success <;> trivial

theorem mountDisk_all {device mountpoint : Option Str}
    (each : mountpoint.getD [] ≠ [] → isDevice (device.getD []) = true →
      isMountPlace t cwd (mountpoint.getD []) = some true →
      P (.toSudo (mkdir (mountpoint.getD []))) ∧
        P (.toSudo (mount (device.getD []) (mountpoint.getD [])))) :
    (mountDisk env t cwd device mountpoint).All P := by
  unfold mountDisk
  dsimp only
  split
  · trivial
  next given =>
    split
    · trivial
    next known =>
      split
      · trivial
      · trivial
      next place =>
        have both := each (fun empty => given (.inr empty)) (by simpa using known) place
        apply handThen_all both.1
        intro _
        apply handThen_all both.2
        intro answer
        rcases answer with ⟨success, msg⟩
        cases success <;> trivial

theorem mountDisk_accepted {device mountpoint : Option Str} (given : mountpoint.getD [] ≠ [])
    (known : isDevice (device.getD []) = true)
    (place : isMountPlace t cwd (mountpoint.getD []) = some true) :
    ∃ next, mountDisk env t cwd device mountpoint =
      (handSudo env (mkdir (mountpoint.getD []))).bind next := by
  have named : device.getD [] ≠ [] := by
    intro empty
    rw [empty] at known
    revert known
    decide
  unfold mountDisk
  dsimp only
  rw [if_neg (by simp [named, given]), if_neg (by simp [known]), place]
  exact ⟨_, rfl⟩

theorem unmountDisk_all {device : Option Str} (each : P (.toSudo (umount (device.getD [])))) :
    (unmountDisk env device).All P := by
  unfold unmountDisk
  dsimp only
  split
  · trivial
  · apply handThen_all each
    intro answer
    rcases answer with ⟨success, msg⟩
    cases success <;> trivial

theorem formatDisk_all {device fstype label : Option Str}
    (each : ∀ kind label device, P (.toSudo (mkfs kind label device))) :
    (formatDisk env device fstype label).All P := by
  unfold formatDisk
  dsimp only
  split
  · trivial
  · split
    · trivial
    · split
      · trivial
      · apply handThen_all (each _ _ _)
        intro answer
        rcases answer with ⟨success, msg⟩
        cases success <;> trivial

theorem serviceAction_all {action name : Str}
    (each : (["start", "stop", "restart"].map String.toList).contains action = true →
      (["smbd", "nmbd", "ssh"].map String.toList).contains name = true →
      P (.toSudo (systemctl action name))) :
    (serviceAction env action name).All P := by
  unfold serviceAction
  split
  · trivial
  next actions =>
    split
    · trivial
    next names =>
      apply handThen_all (each (Bool.of_not_eq_false actions) (Bool.of_not_eq_false names))
      intro answer
      rcases answer with ⟨success, msg⟩
      cases success <;> trivial

theorem systemPower_all {action : Option Str}
    (reboot : P (.toSudo ⟨.fixed "reboot".toList, []⟩))
    (shutdown : P (.toSudo ⟨.fixed "shutdown".toList, [.fixed "now".toList]⟩)) :
    (systemPower env action).All P := by
  unfold systemPower
  split
  · exact handThen_all reboot fun _ => trivial
  · split
    · exact handThen_all shutdown fun _ => trivial
    · trivial

theorem deleteFile_all {path : Str}
    (each : ∀ absPath, isabs absPath = true → P (.toSudo (rm absPath))) :
    (handDeleteFile env t cwd path).All P := by
  unfold handDeleteFile
  dsimp only
  split
  next action absPath acted =>
    have own := (view_acts t cwd path .deleteFile action absPath acted).1
    have absolute : isabs absPath = true := by
      rw [own]
      exact isabs_pathJoin path
    exact handThen_all (each absPath absolute) fun _ => trivial
  next => trivial

theorem runBackup_all {source dest dryRun : Option Str}
    (each : source.getD [] ≠ [] → dest.getD [] ≠ [] →
      P (.toSudo (rsync (!(dryRun.getD []).isEmpty) (source.getD []) (dest.getD [])))) :
    (runBackup env source dest dryRun).All P := by
  unfold runBackup
  dsimp only
  split
  · trivial
  next given =>
    rw [not_or] at given
    apply handThen_all (each given.1 given.2)
    intro answer
    rcases answer with ⟨success, msg⟩
    cases success <;> trivial

end Views

theorem optionFree_of_plain (env : Env) (t : Tree) (cwd : Str) (request : SudoRequest)
    (plain : request.Plain env t cwd) : request.OptionFree env t cwd := by
  intro answer
  apply Prog.all_exec
  cases request with
  | account route username password =>
      apply account_all
      intro valid
      have name := username_not_dashed valid
      refine ⟨?_, handPassword_all rfl ?_⟩
      · change (useradd username).optionFree = true
        rw [useradd_free, name]
        rfl
      · change (smbpasswdAdd username).optionFree = true
        rw [smbpasswdAdd_free, name]
        rfl
  | deleteUser username =>
      refine Prog.all_bind (deleteUser_all fun free => ?_) fun _ => trivial
      have name := plain free
      change (smbpasswdDelete _).optionFree = true ∧ (userdel _).optionFree = true
      rw [smbpasswdDelete_free, userdel_free, name]
      exact ⟨rfl, rfl⟩
  | mountDisk device mountpoint =>
      refine Prog.all_bind (mountDisk_all fun _ known place => ?_) fun _ => trivial
      have point := plain known place
      change (mkdir _).optionFree = true ∧ (mount _ _).optionFree = true
      rw [mkdir_free, mount_free, point]
      exact ⟨rfl, rfl⟩
  | unmountDisk device =>
      exact Prog.all_bind (unmountDisk_all (umount_free _)) fun _ => trivial
  | formatDisk device fstype label =>
      exact Prog.all_bind (formatDisk_all fun kind label device => mkfs_free kind label device)
        fun _ => trivial
  | serviceAction action name =>
      exact Prog.all_bind (serviceAction_all fun actions names => systemctl_free actions names)
        fun _ => trivial
  | systemPower action => exact Prog.all_bind (systemPower_all rfl rfl) fun _ => trivial
  | deleteFile path =>
      exact Prog.all_bind (deleteFile_all fun absPath absolute => rm_free absolute) fun _ => trivial
  | runBackup source dest dryRun =>
      refine Prog.all_bind (runBackup_all fun some other => ?_) fun _ => trivial
      have both := plain some other
      change (rsync _ _ _).optionFree = true
      rw [rsync_free, both.1, both.2]
      rfl

section Converse

variable {env : Env} {t : Tree} {cwd : Str}

theorem first_free {A : Type} {request : SudoRequest} {command : Command}
    {next : Bool × Str → Hands A} {last : A → Hands Unit} (free : request.OptionFree env t cwd)
    (view : request.hands env t cwd = ((handSudo env command).bind next).bind last) :
    command.optionFree = true := by
  apply free allSucceed (.toSudo command)
  rw [view]
  exact List.mem_cons_self

theorem dashed_ne_nil {s : Str} (option : isDashed s = true) : s ≠ [] := by
  intro empty
  subst empty
  cases option

theorem plain_of_optionFree (request : SudoRequest) (free : request.OptionFree env t cwd) :
    request.Plain env t cwd := by
  cases request with
  | deleteUser username =>
      intro open'
      rw [← Bool.not_eq_true]
      intro option
      have view : ∃ next, deleteUser env username =
          (handSudo env (smbpasswdDelete (username.getD []))).bind next := by
        unfold deleteUser
        dsimp only
        rw [if_neg (dashed_ne_nil option), if_neg (by simp [open'])]
        exact ⟨_, rfl⟩
      rcases view with ⟨next, view⟩
      have first := first_free free (by rw [SudoRequest.hands, view])
      rw [smbpasswdDelete_free, option] at first
      cases first
  | mountDisk device mountpoint =>
      intro known place
      rw [← Bool.not_eq_true]
      intro option
      rcases mountDisk_accepted (dashed_ne_nil option) known place with ⟨next, view⟩
      have first := first_free free (by rw [SudoRequest.hands, view])
      rw [mkdir_free, option] at first
      cases first
  | runBackup source dest dryRun =>
      intro some other
      have view : ∃ next, runBackup env source dest dryRun = (handSudo env
          (rsync (!(dryRun.getD []).isEmpty) (source.getD []) (dest.getD []))).bind next := by
        unfold runBackup
        dsimp only
        rw [if_neg (by simp [some, other])]
        exact ⟨_, rfl⟩
      rcases view with ⟨next, view⟩
      have first := first_free free (by rw [SudoRequest.hands, view])
      rw [rsync_free, Bool.and_eq_true, Bool.not_eq_true', Bool.not_eq_true'] at first
      exact first
  | account route username password => trivial
  | unmountDisk device => trivial
  | formatDisk device fstype label => trivial
  | serviceAction action name => trivial
  | systemPower action => trivial
  | deleteFile path => trivial

end Converse

theorem option_free_iff (env : Env) (t : Tree) (cwd : Str) (request : SudoRequest) :
    request.OptionFree env t cwd ↔ request.Plain env t cwd :=
  ⟨plain_of_optionFree request, optionFree_of_plain env t cwd request⟩

-- a mount point that begins with a dash can pass the check
example : isMountPlace linkedTree "/opt".toList "-o/../../mnt/x".toList = some true := by
  decide +kernel

/-- The source of a backup is an option of `rsync`. -/
theorem backup_source_is_option : ¬∀ (env : Env) (t : Tree) (cwd : Str) (request : SudoRequest),
    ¬startswith cwd "/mnt".toList → ¬startswith cwd "/srv".toList →
      request.OptionFree env t cwd := by
  intro all
  have free := all ⟨true, "dev".toList, "secret".toList⟩ linkedTree "/".toList
    (.runBackup (some "--remove-source-files".toList) (some "/srv/nas".toList) none)
    (by decide) (by decide) allSucceed
  revert free
  decide +kernel

end SmolNas.App
