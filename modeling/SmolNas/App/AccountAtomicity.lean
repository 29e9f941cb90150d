import SmolNas.App.Accounts

/-! What `signup` and `add_user` leave behind of the system accounts. Neither view takes a
step back after `useradd`. -/

namespace SmolNas.App

open Py Lib

inductive AccountRequest where
  | signup (authenticated : Bool) (method : Method) (form : AccountForm)
  | addUser (form : AccountForm)
  deriving DecidableEq, Repr

/-- The end of a started program, and what it did to the accounts. A `useradd` or a `userdel`
`takesEffect` or not, whatever its exit status; of a program that is neither, nor sets a
password, nothing is known: `other` is what it leaves of the names. -/
structure Ran where
  outcome : Outcome
  takesEffect : Bool
  other : List Str → List Str

/-- The word after `sudo -n`. -/
def Call.program (call : Call) : Str := call.args[2]?.getD []

def Call.account (call : Call) : Str := call.args.getLast?.getD []

def accountsAfter (accounts : List Str) (call : Call) (ran : Ran) : List Str :=
  if call.program = "useradd".toList then
    if ran.takesEffect then accounts.insert call.account else accounts
  else if call.program = "userdel".toList then
    if ran.takesEffect then accounts.filter (· != call.account) else accounts
  else if call.program = "chpasswd".toList ∨ call.program = "smbpasswd".toList then accounts
  else ran.other accounts

/-- A `useradd` that exits with 0 has added the account, and it adds none whose name is taken. -/
structure Ran.Documented (accounts : List Str) (username : Str) (ran : Ran) : Prop where
  success : (sudoAnswer ran.outcome).1 = true → ran.takesEffect = true
  free : ran.takesEffect = true → username ∉ accounts

namespace AccountRequest

def view (env : Env) : AccountRequest → Proc Reply
  | signup authenticated method form => App.signup env authenticated method form
  | addUser form => App.addUser env form

def form : AccountRequest → AccountForm
  | signup _ _ form => form
  | addUser form => form

def username (request : AccountRequest) : Str := request.form.username.getD []

def password (request : AccountRequest) : Str := request.form.password.getD []

def run (env : Env) (request : AccountRequest) (ran : Nat → Ran) (accounts : List Str) :
    Reply × List Str :=
  (request.view env).runIn Ran.outcome accountsAfter ran accounts

/-- `signup` does not report a registration, or `add_user` reports that one of the first two
programs failed. -/
def ReportsFailure (reply : Reply) : AccountRequest → Prop
  | signup _ _ _ => reply ≠ registered
  | addUser _ => ∃ reason, reply.flashes = ["Failed to create system user: ".toList ++ reason] ∨
      reply.flashes = ["Failed to set password: ".toList ++ reason]

/-- A `useradd` that behaves as documented may let the request, made with these accounts, get
through. -/
def CanBeRetried (env : Env) (request : AccountRequest) (accounts : List Str) : Prop :=
  ∃ ran, (ran 0).Documented accounts request.username ∧
    ¬request.ReportsFailure (request.run env ran accounts).1

def Succeeds (reply : Reply) : AccountRequest → Prop
  | signup _ _ _ => reply = registered
  | addUser form =>
      reply.flashes = ["User ".toList ++ form.username.getD [] ++ " added successfully.".toList]

/-- The request gets to `useradd`. -/
def accepted (request : AccountRequest) : Bool :=
  match request with
  | signup authenticated method _ => !authenticated && method == .post &&
      AccountRoute.signup.accepts request.username request.password
  | addUser _ => AccountRoute.addUser.accepts request.username request.password

def startsUseradd (env : Env) (request : AccountRequest) : Bool :=
  env.production && request.accepted

end AccountRequest

section Effects

variable {env : Env} {ran : Nat → Ran} {accounts : List Str}

theorem accountsAfter_useradd (username : Str) (accounts : List Str) (ran : Ran) :
    accountsAfter accounts ⟨finalCmd (useraddArgs username), none⟩ ran =
      if ran.takesEffect then accounts.insert username else accounts := rfl

theorem accountsAfter_password {call : Call}
    (sets : call.program = "chpasswd".toList ∨ call.program = "smbpasswd".toList)
    (accounts : List Str) (ran : Ran) : accountsAfter accounts call ran = accounts := by
  have others : call.program ≠ "useradd".toList ∧ call.program ≠ "userdel".toList := by
    rcases sets with word | word <;> rw [word] <;> decide
  rw [accountsAfter, if_neg others.1, if_neg others.2, if_pos sets]

/-- Such programs change nothing, whatever becomes of them. -/
def Quiet (p : Proc Reply) : Prop :=
  p.All fun call => ∀ accounts ran, accountsAfter accounts call ran = accounts

/-- After `useradd` the accounts stay as it left them; outside of production it is not
started. -/
theorem createAccount_accounts {username password addFailed setFailed setRaised : Str}
    {back : Endpoint} {next : Proc Reply} (later : Quiet next) :
    ((createAccount env username password addFailed setFailed setRaised back next).runIn
        Ran.outcome accountsAfter ran accounts).2 =
      if env.production && (ran 0).takesEffect then accounts.insert username else accounts := by
  cases production : env.production with
  | false =>
      rw [createAccount_simulated production]
      exact Prog.runIn_keeps later ran accounts
  | true =>
      have chpasswd : ∀ accounts ran, accountsAfter accounts
          ⟨chpasswdArgs, some (chpasswdInput username password)⟩ ran = accounts :=
        accountsAfter_password (.inl rfl)
      rcases createAccount_first production with ⟨rest, first, all⟩
      rw [first, Prog.runIn_first (all _ chpasswd later) ran accounts, accountsAfter_useradd,
        Bool.true_and]

theorem addSambaUser_quiet (username password : Str) : Quiet (addSambaUser env username password) :=
  addSambaUser_all env username password (accountsAfter_password (.inr rfl))

theorem createAccount_stopped {username password addFailed setFailed setRaised : Str}
    {back : Endpoint} {next : Proc Reply} (production : env.production = true)
    (failed : (sudoAnswer (ran 0).outcome).1 = false) :
    ((createAccount env username password addFailed setFailed setRaised back next).runIn
        Ran.outcome accountsAfter ran accounts).1 =
      ⟨[addFailed ++ (sudoAnswer (ran 0).outcome).2], .redirect back⟩ := by
  unfold createAccount
  rw [runSudoCommand, if_neg (by simp [production])]
  change (Prog.runIn _ _ (if (sudoAnswer (ran 0).outcome).1 = false then _ else _) _ _).1 = _
  rw [if_pos failed]
  rfl

theorem createAccount_goes_on {username password addFailed setFailed setRaised : Str}
    {back : Endpoint} {next : Proc Reply} (production : env.production = true) (same : Ran)
    (succeeds : same.outcome = .completed 0 [] []) :
    ∃ later, ((createAccount env username password addFailed setFailed setRaised back next).runIn
        Ran.outcome accountsAfter (fun _ => same) accounts).1 =
      (next.runIn Ran.outcome accountsAfter (fun _ => same) later).1 := by
  unfold createAccount
  rw [runSudoCommand, if_neg (by simp [production])]
  refine ⟨accountsAfter (accountsAfter accounts ⟨finalCmd (useraddArgs username), none⟩ same)
    ⟨chpasswdArgs, some (chpasswdInput username password)⟩ same, ?_⟩
  change (Prog.runIn _ _ (if (sudoAnswer same.outcome).1 = false then _ else _) _ _).1 = _
  rw [succeeds, if_neg (by decide), if_neg (by simp [production])]
  change (Prog.runIn _ _ (Prog.bind (Prog.call _) _) _ _).1 = _
  rw [Prog.call, Prog.bind, Prog.runIn, succeeds]
  rfl

theorem addSambaUser_adds {username password : Str} {same : Ran}
    (succeeds : same.outcome = .completed 0 [] []) :
    ((addSambaUser env username password).runIn Ran.outcome accountsAfter (fun _ => same)
        accounts).1.flashes = ["User ".toList ++ username ++ " added successfully.".toList] := by
  unfold addSambaUser
  dsimp only
  cases production : env.production with
  | false => rfl
  | true =>
      rw [if_neg (by decide)]
      change Reply.flashes (Prog.runIn _ _ (Prog.bind (Prog.call _) _) _ _).1 = _
      rw [Prog.call, Prog.bind, Prog.runIn, succeeds]
      rfl

end Effects

namespace AccountRequest

variable {request : AccountRequest}

theorem accepts_sent {r : AccountRoute} {form : AccountForm}
    (accepted : r.accepts (form.username.getD []) (form.password.getD []) = true) :
    form = ⟨some (form.username.getD []), some (form.password.getD [])⟩ := by
  rcases form with ⟨username, password⟩
  have filled : username.getD [] ≠ [] ∧ password.getD [] ≠ [] := by
    cases r with
    | signup =>
        simp only [AccountRoute.accepts, Bool.and_eq_true, decide_eq_true_eq] at accepted
        refine ⟨accepted_named accepted.1, ?_⟩
        intro empty
        rw [empty] at accepted
        exact absurd accepted.2 (by decide)
    | addUser =>
        simp only [AccountRoute.accepts, Bool.and_eq_true, decide_eq_true_eq] at accepted
        exact ⟨accepted_named accepted.1, accepted.2⟩
  cases username with
  | none => exact absurd rfl filled.1
  | some name =>
      cases password with
      | none => exact absurd rfl filled.2
      | some secret => rfl

/-- A request that is not refused creates the account. It reports a `useradd` that fails, and
what follows on programs that all exit with 0 is no failure. -/
theorem view_accepted (env : Env) (accepted : request.accepted = true) :
    ∃ addFailed setFailed setRaised back next, Quiet next ∧
      request.view env = createAccount env request.username request.password addFailed setFailed
        setRaised back next ∧
      (∀ reason, request.ReportsFailure ⟨[addFailed ++ reason], .redirect back⟩) ∧
      ∀ same accounts, Ran.outcome same = .completed 0 [] [] → ¬request.ReportsFailure
        (next.runIn Ran.outcome accountsAfter (fun _ => same) accounts).1 := by
  cases request with
  | signup authenticated method form =>
      rw [AccountRequest.accepted, Bool.and_eq_true, Bool.and_eq_true, Bool.not_eq_true',
        beq_iff_eq] at accepted
      rcases accepted with ⟨⟨anonymous, posted⟩, checked⟩
      have whole : form = ⟨some (form.username.getD []), some (form.password.getD [])⟩ :=
        accepts_sent checked
      have sent : view env (.signup authenticated method form) = AccountRoute.signup.request env
          ⟨some (form.username.getD []), some (form.password.getD [])⟩ := by
        rw [view, anonymous, posted, ← whole]
        rfl
      refine ⟨_, _, _, _, .ret registered, trivial, sent.trans (signup_accepted env _ _ checked),
        ?_, fun same accounts _ failure => failure rfl⟩
      intro reason same
      have ends := congrArg Reply.page same
      cases ends
  | addUser form =>
      have whole : form = ⟨some (form.username.getD []), some (form.password.getD [])⟩ :=
        accepts_sent (r := .addUser) accepted
      have sent : view env (.addUser form) = AccountRoute.addUser.request env
          ⟨some (form.username.getD []), some (form.password.getD [])⟩ := by
        rw [view, ← whole]
        rfl
      refine ⟨_, _, _, _, _, addSambaUser_quiet _ _, sent.trans (addUser_accepted env _ _ accepted),
        fun reason => ⟨reason, .inl rfl⟩, ?_⟩
      intro same accounts succeeds failure
      rcases failure with ⟨reason, text | text⟩
      · rw [addSambaUser_adds succeeds] at text
        exact absurd (congrArg List.head? (List.cons.inj text).1) (by simp)
      · rw [addSambaUser_adds succeeds] at text
        exact absurd (congrArg List.head? (List.cons.inj text).1) (by simp)

/-- A request that is refused says so and starts nothing. -/
theorem view_refused (env : Env) (refused : request.accepted = false) :
    ∃ reply, request.view env = .ret reply ∧ ¬request.Succeeds reply := by
  cases request with
  | signup authenticated method form =>
      have silent {flashes : List Str} {page : Page} (other : page ≠ .redirect .login) :
          ¬Succeeds ⟨flashes, page⟩ (.signup authenticated method form) :=
        fun same => other (congrArg Reply.page same)
      unfold view App.signup
      dsimp only
      split
      · exact ⟨_, rfl, silent (by decide)⟩
      split
      · exact ⟨_, rfl, silent (by decide)⟩
      split
      · exact ⟨_, rfl, silent (by decide)⟩
      split
      · exact ⟨_, rfl, silent (by decide)⟩
      split
      · exact ⟨_, rfl, silent (by decide)⟩
      next anonymous posted _ named long =>
        -- all checks have passed
        have method_post : method = .post := by
          cases method with
          | get => exact absurd rfl posted
          | post => rfl
        have checked : AccountRequest.accepted (.signup authenticated method form) = true := by
          simp only [AccountRequest.accepted, AccountRoute.accepts, Bool.and_eq_true,
            Bool.not_eq_true', beq_iff_eq, decide_eq_true_eq]
          exact ⟨⟨(Bool.not_eq_true _).mp anonymous, method_post⟩, (Bool.not_eq_false _).mp named,
            Nat.le_of_not_lt long⟩
        rw [checked] at refused
        cases refused
  | addUser form =>
      -- the messages differ from that of a success in the fifth character
      have silent {text : Str} {page : Page} (other : text[4]? ≠ some ' ') :
          ¬Succeeds ⟨[text], page⟩ (.addUser form) := by
        intro same
        rw [(List.cons.inj same).1] at other
        exact other rfl
      unfold view App.addUser
      dsimp only
      split
      · exact ⟨_, rfl, silent (by decide)⟩
      split
      · exact ⟨_, rfl, silent (by decide)⟩
      next filled named =>
        rw [not_or] at filled
        have checked : AccountRequest.accepted (.addUser form) = true := by
          simp only [AccountRequest.accepted, AccountRoute.accepts, Bool.and_eq_true,
            decide_eq_true_eq]
          exact ⟨(Bool.not_eq_false _).mp named, filled.2⟩
        rw [checked] at refused
        cases refused

end AccountRequest

section Request

variable {env : Env} {request : AccountRequest} {accounts : List Str}

theorem run_accounts (env : Env) (request : AccountRequest) (ran : Nat → Ran)
    (accounts : List Str) :
    (request.run env ran accounts).2 =
      if request.startsUseradd env && (ran 0).takesEffect then accounts.insert request.username
        else accounts := by
  unfold AccountRequest.run AccountRequest.startsUseradd
  cases accepted : request.accepted with
  | true =>
      rcases AccountRequest.view_accepted env accepted with
        ⟨addFailed, setFailed, setRaised, back, next, later, view, -⟩
      rw [view, createAccount_accounts later, Bool.and_true]
  | false =>
      rcases AccountRequest.view_refused env accepted with ⟨reply, view, -⟩
      rw [view, Bool.and_false, Bool.false_and, if_neg Bool.false_ne_true]
      rfl

/-- All programs do what they are for. -/
def smooth : Ran := ⟨.completed 0 [] [], true, id⟩

/-- A request that gets to `useradd` may get through exactly if its name is free. -/
theorem canBeRetried_iff (starts : request.startsUseradd env = true) :
    request.CanBeRetried env accounts ↔ request.username ∉ accounts := by
  rw [AccountRequest.startsUseradd, Bool.and_eq_true] at starts
  rcases starts with ⟨production, accepted⟩
  rcases AccountRequest.view_accepted env accepted with
    ⟨addFailed, setFailed, setRaised, back, next, -, view, stopped, smoothly⟩
  constructor
  · rintro ⟨ran, documented, through⟩
    cases done : (sudoAnswer (ran 0).outcome).1 with
    | true => exact documented.free (documented.success done)
    | false =>
        rw [AccountRequest.run, view, createAccount_stopped production done] at through
        exact absurd (stopped _) through
  · intro free
    refine ⟨fun _ => smooth, ⟨fun _ => rfl, fun _ => free⟩, ?_⟩
    rw [AccountRequest.run, view]
    rcases createAccount_goes_on production smooth rfl with ⟨later, goes⟩
    rw [goes]
    exact smoothly smooth later rfl

end Request

/-- Whatever the programs do and whatever the request reports, the accounts after it are those
before it, with the requested one if `useradd` was started and added it, and that account stays
if `useradd` succeeds and `chpasswd` fails. So the same request can be made again exactly if
`useradd` added nothing and the name was free. -/
theorem accounts_after_request (env : Env) (request : AccountRequest) (ran : Nat → Ran)
    (accounts : List Str) (documented : (ran 0).Documented accounts request.username) :
    (request.run env ran accounts).2 =
        (if request.startsUseradd env && (ran 0).takesEffect then
          accounts.insert request.username else accounts) ∧
      (request.startsUseradd env = true → (sudoAnswer (ran 0).outcome).1 = true →
        request.username ∈ (request.run env ran accounts).2) ∧
      (request.startsUseradd env = true →
        (request.CanBeRetried env (request.run env ran accounts).2 ↔
          (ran 0).takesEffect = false ∧ request.username ∉ accounts)) := by
  have effect := run_accounts env request ran accounts
  refine ⟨effect, ?_, ?_⟩
  · intro started succeeded
    rw [effect, started, documented.success succeeded]
    exact List.mem_insert_self
  · intro started
    rw [canBeRetried_iff started, effect, started, Bool.true_and]
    cases (ran 0).takesEffect with
    | true => simp
    | false => simp

def eve : AccountRequest :=
  .signup false .post ⟨some "eve".toList, some "longenough1".toList⟩

/-- `useradd` succeeds, and what is started after it fails. -/
def onlyUseradd : Nat → Ran
  | 0 => smooth
  | _ => ⟨.completed 1 [] "chpasswd: failure".toList, false, id⟩

theorem onlyUseradd_documented : (onlyUseradd 0).Documented ["dev".toList] eve.username :=
  ⟨fun _ => rfl, fun _ => by decide⟩

/-- The registration fails, the account stays, and the request cannot be made again. -/
theorem failed_registration_stays : ¬∀ (env : Env) (request : AccountRequest) (ran : Nat → Ran)
    (accounts : List Str), (ran 0).Documented accounts request.username →
      request.ReportsFailure (request.run env ran accounts).1 →
        (request.run env ran accounts).2 = accounts := by
  intro all
  have kept := all ⟨true, "dev".toList, "secret".toList⟩ eve onlyUseradd ["dev".toList]
    onlyUseradd_documented (show _ ≠ registered by decide +kernel)
  revert kept
  decide +kernel

theorem accounts_after_eve :
    (eve.run ⟨true, "dev".toList, "secret".toList⟩ onlyUseradd ["dev".toList]).2 =
        ["eve".toList, "dev".toList] ∧
      ¬eve.CanBeRetried ⟨true, "dev".toList, "secret".toList⟩
        (eve.run ⟨true, "dev".toList, "secret".toList⟩ onlyUseradd ["dev".toList]).2 := by
  have after := accounts_after_request ⟨true, "dev".toList, "secret".toList⟩ eve onlyUseradd
    ["dev".toList] onlyUseradd_documented
  constructor
  · rw [after.1]
    decide +kernel
  · intro again
    have nothing := ((after.2.2 (by decide +kernel)).mp again).1
    cases nothing

end SmolNas.App
