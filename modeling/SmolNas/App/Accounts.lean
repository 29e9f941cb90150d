import SmolNas.App.Commands
import SmolNas.App.Routes
import SmolNas.Py.Lines
import SmolNas.Py.Regex

/-! The views that create accounts, `signup` and `add_user`, and the records that
`chpasswd` reads from the text they write to it. -/

namespace SmolNas.App

open Py Lib

structure AccountForm where
  username : Option Str
  password : Option Str
  deriving DecidableEq, Repr

def isNameStart (c : Char) : Bool := ('a' ≤ c && c ≤ 'z') || c == '_'

def isNameChar (c : Char) : Bool :=
  ('a' ≤ c && c ≤ 'z') || ('0' ≤ c && c ≤ '9') || c == '_' || c == '-'

/-- `[a-z_][a-z0-9_-]{0,31}` -/
def usernameRe : Re := .seq (.one isNameStart) (.upTo (.one isNameChar) 31)

def invalidUsername : Str :=
  ("Invalid username: use up to 32 lowercase letters, digits, '-' or '_', " ++
    "starting with a letter or '_'.").toList

def useraddArgs (username : Str) : List Str :=
  ["sudo".toList, "useradd".toList, "-m".toList, "-s".toList, "/bin/bash".toList, username]

def chpasswdArgs : List Str := ["sudo".toList, "-n".toList, "chpasswd".toList]

def chpasswdInput (username password : Str) : Str := username ++ ':' :: password ++ ['\n']

def smbpasswdArgs (username : Str) : List Str :=
  ["sudo".toList, "-n".toList, "smbpasswd".toList, "-a".toList, "-s".toList, username]

def smbpasswdInput (password : Str) : Str := password ++ '\n' :: password ++ ['\n']

/-- The part that the two views share: `useradd`, then `chpasswd`, each with the
view's own message in front of the reason of a failure. -/
def createAccount (env : Env) (username password addFailed setFailed setRaised : Str)
    (back : Endpoint) (next : Proc Reply) : Proc Reply := do
  let (success, msg) ← runSudoCommand env (useraddArgs username)
  if success = false then
    return ⟨[addFailed ++ msg], .redirect back⟩
  if env.production = false then
    next
  else
    match ← Prog.call ⟨chpasswdArgs, some (chpasswdInput username password)⟩ with
    | .completed returncode _ stderr =>
        if returncode ≠ 0 then
          return ⟨[setFailed ++ stderr], .redirect back⟩
        next
    | .raised _ text => return ⟨[setRaised ++ text], .redirect back⟩

def registered : Reply :=
  ⟨["Registration successful. You may now initialize your session.".toList], .redirect .login⟩

def signup (env : Env) (authenticated : Bool) (method : Method) (form : AccountForm) :
    Proc Reply := do
  if authenticated then
    return ⟨[], .redirect .files⟩
  if method = .get then
    return ⟨[], .render .signup⟩
  let username := form.username.getD []
  let password := form.password.getD []
  if username = [] ∨ password = [] then
    return ⟨["Username and password required.".toList], .redirect .signup⟩
  if usernameRe.fullmatch username = false then
    return ⟨[invalidUsername], .redirect .signup⟩
  if password.length < 8 then
    return ⟨["Password must be at least 8 characters.".toList], .redirect .signup⟩
  createAccount env username password "Registration failed: ".toList
    "Failed to set password: ".toList "Internal error setting password: ".toList .signup
    (return registered)

def addSambaUser (env : Env) (username password : Str) : Proc Reply := do
  let added : Reply := ⟨["User ".toList ++ username ++ " added successfully.".toList],
    .redirect .users⟩
  let created := "User ".toList ++ username ++
    " created, but adding the Samba user failed: ".toList
  if env.production = false then
    return added
  match ← Prog.call ⟨smbpasswdArgs username, some (smbpasswdInput password)⟩ with
  | .completed returncode stdout stderr =>
      if returncode ≠ 0 then
        let detail := strip (orElse stderr (orElse stdout "unknown error".toList))
        return ⟨[created ++ detail ++ ". Run 'sudo smbpasswd -a ".toList ++ username ++
          "' manually if needed.".toList], .redirect .users⟩
      return added
  | .raised _ text => return ⟨[created ++ text], .redirect .users⟩

def addUser (env : Env) (form : AccountForm) : Proc Reply := do
  let username := form.username.getD []
  let password := form.password.getD []
  if username = [] ∨ password = [] then
    return ⟨["Username and password required.".toList], .redirect .users⟩
  if usernameRe.fullmatch username = false then
    return ⟨[invalidUsername], .redirect .users⟩
  createAccount env username password "Failed to create system user: ".toList
    "Failed to set password: ".toList "Failed to set password: ".toList .users
    (addSambaUser env username password)

/-- One line of the input of `chpasswd`: the name before the first colon and, if
there is a colon, the password after it. -/
def chpasswdRecord (line : Str) : Str × Option Str :=
  (line.takeWhile (· != ':'),
    match line.dropWhile (· != ':') with
    | [] => none
    | _ :: password => some password)

def chpasswdRecords (input : Str) : List (Str × Option Str) :=
  (keepends input).map fun line => chpasswdRecord (chomp line)

inductive AccountRoute where
  | signup
  | addUser
  deriving DecidableEq, Repr

namespace AccountRoute

def request (env : Env) (form : AccountForm) : AccountRoute → Proc Reply
  | signup => App.signup env false .post form
  | addUser => App.addUser env form

def accepts (username password : Str) : AccountRoute → Bool
  | signup => usernameRe.fullmatch username && decide (8 ≤ password.length)
  | addUser => usernameRe.fullmatch username && decide (password ≠ [])

/-- Whatever the started programs answer, each text written to `chpasswd` is the
one record of the account that the request names. -/
def SetsOnlyNamed (env : Env) (username password : Str) (route : AccountRoute) : Prop :=
  ∀ answer, ∀ call ∈ ((route.request env ⟨some username, some password⟩).exec answer).1,
    call.args = chpasswdArgs → ∀ input, call.input = some input →
      chpasswdRecords input = [(username, some password)]

end AccountRoute

theorem username_plain (username : Str) (valid : usernameRe.fullmatch username = true) :
    ':' ∉ username ∧ '\n' ∉ username := by
  have inside : usernameRe.Within (fun c => c ≠ ':' ∧ c ≠ '\n') := by
    refine ⟨?_, Re.within_upTo ?_ 31⟩
    · intro c start
      constructor <;> rintro rfl <;> revert start <;> decide
    · intro c name
      constructor <;> rintro rfl <;> revert name <;> decide
  have each := Re.fullmatch_within inside valid
  exact ⟨fun member => (each ':' member).1 rfl, fun member => (each '\n' member).2 rfl⟩

theorem chpasswdRecord_pair (username password : Str) (free : ':' ∉ username) :
    chpasswdRecord (username ++ ':' :: password) = (username, some password) := by
  have before : ∀ c ∈ username, (c != ':') = true := by
    intro c member
    rw [bne_iff_ne]
    intro equal
    subst equal
    exact free member
  simp [chpasswdRecord, List.takeWhile_append_of_pos before, List.dropWhile_append_of_pos before]

theorem chpasswdInput_records (username password : Str) (free : ':' ∉ username)
    (single : '\n' ∉ username) :
    chpasswdRecords (chpasswdInput username password) = [(username, some password)] ↔
      '\n' ∉ password := by
  have shape : chpasswdInput username password = (username ++ ':' :: password) ++ ['\n'] := by
    simp [chpasswdInput]
  rw [chpasswdRecords, shape]
  constructor
  · intro records
    have length := congrArg List.length records
    rw [List.length_map] at length
    have plain := (keepends_length_one _).mp length
    exact fun member => plain (by simp [member])
  · intro plain
    have complete : Complete ((username ++ ':' :: password) ++ ['\n']) :=
      ⟨_, rfl, by simp [single, plain]⟩
    have lines := keepends_complete _ [] complete
    rw [List.append_nil] at lines
    rw [lines, List.map_cons, chomp_concat, chpasswdRecord_pair username password free]
    rfl

section Create

variable {env : Env} {username password addFailed setFailed setRaised : Str} {back : Endpoint}
  {next : Proc Reply}

/-- In production `useradd` comes first, and what is started after it is `chpasswd` and what
the view goes on with. -/
theorem createAccount_first (production : env.production = true) :
    ∃ rest, createAccount env username password addFailed setFailed setRaised back next =
        .ask ⟨finalCmd (useraddArgs username), none⟩ rest ∧
      ∀ P : Call → Prop, P ⟨chpasswdArgs, some (chpasswdInput username password)⟩ →
        next.All P → ∀ outcome, (rest outcome).All P := by
  unfold createAccount
  rw [runSudoCommand, if_neg (by simp [production])]
  refine ⟨_, rfl, ?_⟩
  intro P chpasswd later outcome
  change Prog.All P (if (sudoAnswer outcome).1 = false then _ else _)
  split
  · trivial
  · rw [if_neg (by simp [production])]
    refine Prog.all_bind (p := Prog.call _) ⟨chpasswd, fun _ => trivial⟩ ?_
    intro outcome
    cases outcome with
    | completed returncode stdout stderr =>
        dsimp only
        split
        · trivial
        · exact later
    | raised kind text => trivial

theorem createAccount_simulated (simulated : env.production = false) :
    createAccount env username password addFailed setFailed setRaised back next = next := by
  unfold createAccount
  rw [runSudoCommand, if_pos simulated]
  change Prog.bind (Prog.ret (true, "Simulated success".toList)) _ = next
  rw [Prog.bind]
  dsimp only
  rw [if_neg (by decide), if_pos simulated]

theorem createAccount_all {P : Call → Prop} (useradd : P ⟨finalCmd (useraddArgs username), none⟩)
    (chpasswd : env.production = true →
      P ⟨chpasswdArgs, some (chpasswdInput username password)⟩)
    (later : next.All P) :
    (createAccount env username password addFailed setFailed setRaised back next).All P := by
  cases production : env.production with
  | false =>
      rw [createAccount_simulated production]
      exact later
  | true =>
      rcases createAccount_first production with ⟨rest, first, all⟩
      rw [first]
      exact ⟨useradd, all P (chpasswd production) later⟩

end Create

theorem addSambaUser_all (env : Env) (username password : Str) {P : Call → Prop}
    (smbpasswd : P ⟨smbpasswdArgs username, some (smbpasswdInput password)⟩) :
    (addSambaUser env username password).All P := by
  unfold addSambaUser
  dsimp only
  split
  · trivial
  · refine Prog.all_bind (p := Prog.call _) ⟨smbpasswd, fun _ => trivial⟩ ?_
    intro outcome
    cases outcome with
    | completed returncode stdout stderr =>
        dsimp only
        split <;> trivial
    | raised kind text => trivial

theorem accepted_named {username : Str} (valid : usernameRe.fullmatch username = true) :
    username ≠ [] := by
  intro equal
  subst equal
  revert valid
  decide

theorem signup_accepted (env : Env) (username password : Str)
    (accepted : AccountRoute.signup.accepts username password = true) :
    AccountRoute.signup.request env ⟨some username, some password⟩ =
      createAccount env username password "Registration failed: ".toList
        "Failed to set password: ".toList "Internal error setting password: ".toList .signup
        (.ret registered) := by
  simp only [AccountRoute.accepts, Bool.and_eq_true, decide_eq_true_eq] at accepted
  have filled : password ≠ [] := by
    intro equal
    subst equal
    simp at accepted
  rw [AccountRoute.request, App.signup, if_neg (by decide), if_neg (by decide)]
  dsimp only [Option.getD_some]
  rw [if_neg (by simp [accepted_named accepted.1, filled]), if_neg (by simp [accepted.1]),
    if_neg (by omega)]
  rfl

theorem addUser_accepted (env : Env) (username password : Str)
    (accepted : AccountRoute.addUser.accepts username password = true) :
    AccountRoute.addUser.request env ⟨some username, some password⟩ =
      createAccount env username password "Failed to create system user: ".toList
        "Failed to set password: ".toList "Failed to set password: ".toList .users
        (addSambaUser env username password) := by
  simp only [AccountRoute.accepts, Bool.and_eq_true, decide_eq_true_eq] at accepted
  rw [AccountRoute.request, App.addUser]
  dsimp only [Option.getD_some]
  rw [if_neg (by simp [accepted_named accepted.1, accepted.2]), if_neg (by simp [accepted.1])]

theorem request_accepted (env : Env) (username password : Str) (route : AccountRoute)
    (accepted : route.accepts username password = true) :
    ∃ addFailed setFailed setRaised back next,
      route.request env ⟨some username, some password⟩ =
        createAccount env username password addFailed setFailed setRaised back next ∧
      ∀ P : Call → Prop, P ⟨smbpasswdArgs username, some (smbpasswdInput password)⟩ →
        next.All P := by
  cases route with
  | signup =>
      exact ⟨_, _, _, _, _, signup_accepted env username password accepted, fun P _ => trivial⟩
  | addUser =>
      exact ⟨_, _, _, _, _, addUser_accepted env username password accepted,
        fun P smbpasswd => addSambaUser_all env username password smbpasswd⟩

def allSucceed : Nat → Outcome := fun _ => .completed 0 [] []

theorem createAccount_sets (env : Env) (username password addFailed setFailed setRaised : Str)
    (back : Endpoint) (next : Proc Reply) (production : env.production = true) :
    ⟨chpasswdArgs, some (chpasswdInput username password)⟩ ∈
      ((createAccount env username password addFailed setFailed setRaised back next).exec
        allSucceed).1 := by
  have ok : sudoAnswer (allSucceed 0) = (true, "Success".toList) := by decide
  change _ ∈ (Prog.exec (Prog.bind (runSudoCommand env _) _) _).1
  rw [Prog.exec_bind, runSudoCommand_exec env _ production, ok]
  apply List.mem_append_right
  dsimp only
  rw [if_neg (by decide), if_neg (by simp [production])]
  exact List.mem_cons_self

theorem account_sets_only_named_iff (env : Env) (username password : Str) (route : AccountRoute)
    (accepted : route.accepts username password = true) :
    route.SetsOnlyNamed env username password ↔
      (env.production = true → '\n' ∉ password) := by
  have valid : usernameRe.fullmatch username = true := by
    cases route <;> simp only [AccountRoute.accepts, Bool.and_eq_true] at accepted <;>
      exact accepted.1
  obtain ⟨noColon, noFeed⟩ := username_plain username valid
  have records := chpasswdInput_records username password noColon noFeed
  obtain ⟨addFailed, setFailed, setRaised, back, next, request, later⟩ :=
    request_accepted env username password route accepted
  unfold AccountRoute.SetsOnlyNamed
  rw [request]
  constructor
  · intro only production
    have call := createAccount_sets env username password addFailed setFailed setRaised back next
      production
    exact records.mp (only allSucceed _ call rfl _ rfl)
  · intro plain answer
    apply Prog.all_exec
    apply createAccount_all
    · intro _ input given
      cases given
    · intro production _ input given
      cases given
      exact records.mpr (plain production)
    · apply later
      intro args
      exact absurd args (by simp [smbpasswdArgs, chpasswdArgs])

theorem account_sets_only_named_signup :
    AccountRoute.signup.accepts "eve".toList "longenough1".toList = true ∧
      AccountRoute.signup.SetsOnlyNamed ⟨true, "dev".toList, "raspberry".toList⟩
        "eve".toList "longenough1".toList :=
  ⟨by decide, (account_sets_only_named_iff _ _ _ .signup (by decide)).mpr (by decide)⟩

/-- A line feed in an accepted password is a second record, for any account. -/
theorem signup_password_sets_root :
    AccountRoute.signup.accepts "eve".toList "aaaaaaaa\nroot:owned".toList = true ∧
      ¬AccountRoute.signup.SetsOnlyNamed ⟨true, "dev".toList, "raspberry".toList⟩
        "eve".toList "aaaaaaaa\nroot:owned".toList := by
  refine ⟨by decide, fun only => ?_⟩
  have call : (⟨chpasswdArgs, some (chpasswdInput "eve".toList "aaaaaaaa\nroot:owned".toList)⟩ : Call) ∈
      ((AccountRoute.signup.request ⟨true, "dev".toList, "raspberry".toList⟩
        ⟨some "eve".toList, some "aaaaaaaa\nroot:owned".toList⟩).exec allSucceed).1 := by decide
  have records := only allSucceed _ call rfl _ rfl
  revert records
  decide

end SmolNas.App
