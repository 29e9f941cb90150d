import SmolNas.App.AccountAtomicity
import SmolNas.App.Login
import SmolNas.App.OptionSafety
import SmolNas.App.SudoStarted

/-! The accounts of the system and of Samba as two tables: what the requests that create and
delete accounts make of them in production, with account tools that do what they are
documented to do, or fail. -/

namespace SmolNas.App

open Py Lib

section Tables

/-- The password of a system account, which a new one does not have, and that of a Samba
account. -/
structure AccountTables where
  system : Str → Option (Option Str)
  samba : Str → Option Str

namespace AccountTables

def add (name : Str) (a : AccountTables) : AccountTables :=
  { a with system := fun other => if other = name then some none else a.system other }

def setPassword (name password : Str) (a : AccountTables) : AccountTables :=
  { a with system := fun other => if other = name then some (some password) else a.system other }

def setSamba (name password : Str) (a : AccountTables) : AccountTables :=
  { a with samba := fun other => if other = name then some password else a.samba other }

def dropSystem (name : Str) (a : AccountTables) : AccountTables :=
  { a with system := fun other => if other = name then none else a.system other }

def dropSamba (name : Str) (a : AccountTables) : AccountTables :=
  { a with samba := fun other => if other = name then none else a.samba other }

def drop (samba system : Bool) (name : Str) (a : AccountTables) : AccountTables where
  system := fun other => if system = true ∧ other = name then none else a.system other
  samba := fun other => if samba = true ∧ other = name then none else a.samba other

/-- Every record names an account and has a password. -/
def takes (records : List (Str × Option Str)) (a : AccountTables) : Bool :=
  records.all fun r => (a.system r.1).isSome && r.2.isSome

def setAll (records : List (Str × Option Str)) (a : AccountTables) : AccountTables :=
  records.foldl (fun a r => a.setPassword r.1 (r.2.getD [])) a

end AccountTables

/-- The password that `smbpasswd -s` reads: two lines, which have to be the same. -/
def smbpasswdReads (input : Str) : Option Str :=
  match (keepends input).map chomp with
  | first :: second :: _ => if first = second then some first else none
  | _ => none

def Outcome.isDone (outcome : Outcome) : Bool := (sudoAnswer outcome).1

/-- The steps of the account tools, and what `sshpass` ends with for a user name and a password,
by what is documented of them for names that an account can have. Any tool may fail: it has then
done nothing, or what it was started for, and `chpasswd` may have set some of its records. The
tools that delete read a name with a dash in front as an option. -/
structure AccountTools where
  step : AccountTables → Call → Outcome → AccountTables → Prop
  ssh : AccountTables → Str → Str → Outcome → Prop
  useradd : ∀ a name outcome a', usernameRe.fullmatch name = true →
    step a ⟨finalCmd (useraddArgs name), none⟩ outcome a' →
      (outcome.isDone = false ∧ a' = a) ∨ ((a.system name).isSome = false ∧ a' = a.add name)
  chpasswd : ∀ a input outcome a', step a ⟨chpasswdArgs, some input⟩ outcome a' →
    ∃ records, records.Sublist (chpasswdRecords input) ∧ a.takes records = true ∧
      a' = a.setAll records ∧ (outcome.isDone = true → records = chpasswdRecords input)
  smbpasswd : ∀ a name input outcome a', usernameRe.fullmatch name = true →
    step a ⟨smbpasswdArgs name, some input⟩ outcome a' →
      (outcome.isDone = false ∧ a' = a) ∨ ((a.system name).isSome = true ∧
        ∃ secret, smbpasswdReads input = some secret ∧ a' = a.setSamba name secret)
  smbpasswd_delete : ∀ a name outcome a', isDashed name = false →
    step a ⟨"sudo".toList :: "-n".toList :: (smbpasswdDelete name).list, none⟩ outcome a' →
      (outcome.isDone = false ∧ a' = a) ∨ a' = a.dropSamba name
  userdel : ∀ a name outcome a', isDashed name = false →
    step a ⟨"sudo".toList :: "-n".toList :: (userdel name).list, none⟩ outcome a' →
      (outcome.isDone = false ∧ a' = a) ∨ a' = a.dropSystem name
  ssh_accepts : ∀ a name password outcome, ssh a name password outcome →
    (outcome.isDone = true ↔ a.system name = some (some password))

end Tables

section Requests

inductive AccountChange where
  | create (request : AccountRequest)
  | delete (username : Option Str)

def AccountRequest.records (request : AccountRequest) : List (Str × Option Str) :=
  chpasswdRecords (chpasswdInput request.username request.password)

namespace AccountChange

def view (env : Env) : AccountChange → Proc Reply
  | create request => request.view env
  | delete username => started env (deleteUser env username)

/-- The name of an account to delete is no option. -/
def Named : AccountChange → Prop
  | create _ => True
  | delete username => isDashed (username.getD []) = false

def Succeeds (reply : Reply) : AccountChange → Prop
  | create request => request.Succeeds reply
  | delete username =>
      reply.flashes = ["User '".toList ++ username.getD [] ++ "' deleted successfully.".toList]

/-- One request and its reply, in a world with these tools. -/
def Step (tools : AccountTools) (env : Env) (a : AccountTables) (e : AccountChange × Reply)
    (a' : AccountTables) : Prop :=
  (e.1.view env).Ends tools.step a e.2 a'

/-- What a request makes of the tables, and what it reports then. An account is added only if
there is none of its name; a request that reports success has done all of its steps. -/
inductive Makes (env : Env) (a : AccountTables) : AccountChange × Reply → AccountTables → Prop where
  | nothing {change : AccountChange} {reply : Reply} (silent : ¬change.Succeeds reply) :
      Makes env a (change, reply) a
  | created {request : AccountRequest} {reply : Reply} {records : List (Str × Option Str)}
      (accepted : request.accepted = true) (new : (a.system request.username).isSome = false)
      (part : records.Sublist request.records)
      (known : (a.add request.username).takes records = true)
      (silent : Succeeds reply (.create request) →
        records = request.records ∧ ∃ x y z, request = .signup x y z) :
      Makes env a (.create request, reply) ((a.add request.username).setAll records)
  | enrolled {form : AccountForm} {reply : Reply} {secret : Str}
      (accepted : (AccountRequest.addUser form).accepted = true)
      (new : (a.system (form.username.getD [])).isSome = false)
      (known : (a.add (form.username.getD [])).takes (AccountRequest.addUser form).records = true)
      (reads : smbpasswdReads (smbpasswdInput (form.password.getD [])) = some secret) :
      Makes env a (.create (.addUser form), reply)
        (((a.add (form.username.getD [])).setAll
          (AccountRequest.addUser form).records).setSamba (form.username.getD []) secret)
  | deleted {username : Option Str} {reply : Reply} (samba system : Bool)
      (unprotected : isProtectedAccount env (username.getD []) = false)
      (done : Succeeds reply (.delete username) → system = true) :
      Makes env a (.delete username, reply)
        (a.drop samba system (username.getD []))

end AccountChange

end Requests

section Steps

variable {tools : AccountTools} {env : Env} {a a' : AccountTables}

theorem setAll_system (records : List (Str × Option Str)) (a : AccountTables) (name : Str)
    (known : (a.system name).isSome = true) : ((a.setAll records).system name).isSome = true := by
  induction records generalizing a with
  | nil => exact known
  | cons r records ih =>
      apply ih
      change (if name = r.1 then _ else a.system name).isSome = true
      split
      · rfl
      · exact known

theorem createAccount_ends {username password addFailed setFailed setRaised : Str}
    {back : Endpoint} {next : Proc Reply} {reply : Reply} (production : env.production = true)
    (valid : usernameRe.fullmatch username = true)
    (ends : (createAccount env username password addFailed setFailed setRaised back next).Ends
      tools.step a reply a') :
    ((a' = a ∨ ∃ records, (a.system username).isSome = false ∧
          records.Sublist (chpasswdRecords (chpasswdInput username password)) ∧
          (a.add username).takes records = true ∧ a' = (a.add username).setAll records) ∧
        ∃ text, reply = ⟨[addFailed ++ text], .redirect back⟩ ∨
          reply = ⟨[setFailed ++ text], .redirect back⟩ ∨
          reply = ⟨[setRaised ++ text], .redirect back⟩) ∨
      ((a.system username).isSome = false ∧
        (a.add username).takes (chpasswdRecords (chpasswdInput username password)) = true ∧
        next.Ends tools.step
          ((a.add username).setAll (chpasswdRecords (chpasswdInput username password)))
          reply a') := by
  unfold createAccount at ends
  rw [runSudoCommand, if_neg (by simp [production])] at ends
  rcases Prog.ends_ask ends with ⟨outcome, mid, added, rest⟩
  change Prog.Ends tools.step (if (sudoAnswer outcome).1 = false then _
    else if env.production = false then next else Prog.bind (Prog.call _) _) mid reply a' at rest
  have adds := tools.useradd a username outcome mid valid added
  split at rest
  next failed =>
    -- a `useradd` that failed may have added the account all the same
    rcases Prog.ends_ret rest with ⟨rfl, rfl⟩
    refine .inl ⟨?_, _, .inl rfl⟩
    rcases adds with ⟨-, same⟩ | ⟨free, same⟩
    · exact .inl same
    · exact .inr ⟨[], free, List.nil_sublist _, rfl, same⟩
  next done =>
    rcases adds with ⟨failed, -⟩ | ⟨free, rfl⟩
    · exact absurd failed done
    rw [if_neg (show ¬env.production = false by simp [production])] at rest
    rcases Prog.ends_bind rest with ⟨outcome, mid, called, last⟩
    rcases Prog.ends_ask called with ⟨r, mid', set, ended⟩
    rcases Prog.ends_ret ended with ⟨rfl, rfl⟩
    rcases tools.chpasswd _ _ _ _ set with ⟨records, part, known, rfl, all⟩
    cases outcome with
    | raised kind text =>
        rcases Prog.ends_ret last with ⟨rfl, rfl⟩
        exact .inl ⟨.inr ⟨records, free, part, known, rfl⟩, text, .inr (.inr rfl)⟩
    | completed returncode stdout stderr =>
        dsimp only at last
        split at last
        next failed =>
          rcases Prog.ends_ret last with ⟨rfl, rfl⟩
          exact .inl ⟨.inr ⟨records, free, part, known, rfl⟩, stderr, .inr (.inl rfl)⟩
        next zero =>
          have whole := all ((sudoAnswer_success _).mpr
            ⟨stdout, stderr, by rw [Classical.not_not.mp zero]⟩)
          rw [whole] at known last
          exact .inr ⟨free, known, last⟩

theorem addSambaUser_ends (production : env.production = true) {username password : Str}
    {reply : Reply} (valid : usernameRe.fullmatch username = true)
    (ends : (addSambaUser env username password).Ends tools.step a reply a') :
    (a' = a ∧ ∃ text, reply.flashes = ["User ".toList ++ username ++
        " created, but adding the Samba user failed: ".toList ++ text]) ∨
      ∃ secret, smbpasswdReads (smbpasswdInput password) = some secret ∧
        a' = a.setSamba username secret := by
  unfold addSambaUser at ends
  dsimp only at ends
  rw [if_neg (by simp [production])] at ends
  rcases Prog.ends_bind ends with ⟨outcome, mid, called, last⟩
  rcases Prog.ends_ask called with ⟨r, mid', set, ended⟩
  rcases Prog.ends_ret ended with ⟨rfl, rfl⟩
  have sets := tools.smbpasswd _ _ _ _ _ valid set
  cases outcome with
  | raised kind text =>
      rcases Prog.ends_ret last with ⟨rfl, rfl⟩
      rcases sets with ⟨-, rfl⟩ | ⟨-, secret, reads, rfl⟩
      · exact .inl ⟨rfl, text, rfl⟩
      · exact .inr ⟨secret, reads, rfl⟩
  | completed returncode stdout stderr =>
      dsimp only at last
      split at last
      next failed =>
        rcases Prog.ends_ret last with ⟨rfl, rfl⟩
        rcases sets with ⟨-, rfl⟩ | ⟨-, secret, reads, rfl⟩
        · refine .inl ⟨rfl, strip (orElse stderr (orElse stdout "unknown error".toList)) ++
            (". Run 'sudo smbpasswd -a ".toList ++ (username ++
              "' manually if needed.".toList)), ?_⟩
          simp only [List.append_assoc]
        · exact .inr ⟨secret, reads, rfl⟩
      next zero =>
        rcases Prog.ends_ret last with ⟨rfl, rfl⟩
        rcases sets with ⟨failed, -⟩ | ⟨-, secret, reads, rfl⟩
        · rw [Classical.not_not.mp zero] at failed
          cases failed
        · exact .inr ⟨secret, reads, rfl⟩

theorem accepted_username {request : AccountRequest} (accepted : request.accepted = true) :
    usernameRe.fullmatch request.username = true := by
  cases request with
  | signup authenticated method form =>
      rw [AccountRequest.accepted, Bool.and_eq_true, AccountRoute.accepts] at accepted
      simp only [Bool.and_eq_true] at accepted
      exact accepted.2.1
  | addUser form =>
      rw [AccountRequest.accepted, AccountRoute.accepts, Bool.and_eq_true] at accepted
      exact accepted.1

theorem AccountRequest.view_signup {authenticated : Bool} {method : Method} {form : AccountForm}
    (accepted : AccountRequest.accepted (.signup authenticated method form) = true) :
    AccountRequest.view env (.signup authenticated method form) =
      createAccount env (form.username.getD []) (form.password.getD [])
        "Registration failed: ".toList "Failed to set password: ".toList
        "Internal error setting password: ".toList .signup (.ret registered) := by
  rw [AccountRequest.accepted, Bool.and_eq_true, Bool.and_eq_true, Bool.not_eq_true',
    beq_iff_eq] at accepted
  rcases accepted with ⟨⟨anonymous, posted⟩, checked⟩
  have sent := signup_accepted env (form.username.getD []) (form.password.getD []) checked
  have whole : form = ⟨some (form.username.getD []), some (form.password.getD [])⟩ :=
    AccountRequest.accepts_sent checked
  rw [← whole] at sent
  rw [AccountRequest.view, anonymous, posted]
  exact sent

theorem AccountRequest.view_addUser {form : AccountForm}
    (accepted : AccountRequest.accepted (.addUser form) = true) :
    AccountRequest.view env (.addUser form) =
      createAccount env (form.username.getD []) (form.password.getD [])
        "Failed to create system user: ".toList "Failed to set password: ".toList
        "Failed to set password: ".toList .users
        (addSambaUser env (form.username.getD []) (form.password.getD [])) := by
  have sent := addUser_accepted env (form.username.getD []) (form.password.getD []) accepted
  have whole : form = ⟨some (form.username.getD []), some (form.password.getD [])⟩ :=
    AccountRequest.accepts_sent (r := .addUser) accepted
  rw [← whole] at sent
  exact sent

theorem handSudo_ends {A : Type} (production : env.production = true) {command : Command}
    {next : Bool × Str → Hands A} {result : A}
    (ends : (started env (Prog.bind (handSudo env command) next)).Ends tools.step a result a') :
    ∃ outcome mid, tools.step a ⟨"sudo".toList :: "-n".toList :: command.list, none⟩ outcome mid ∧
      (started env (next (sudoAnswer outcome))).Ends tools.step mid result a' := by
  rw [started_bind, started_handSudo] at ends
  rcases Prog.ends_bind ends with ⟨answer, mid, called, last⟩
  rw [runSudoCommand, if_neg (by simp [production]), finalCmd, if_pos rfl] at called
  rcases Prog.ends_ask called with ⟨outcome, mid', answered, ended⟩
  rcases Prog.ends_ret ended with ⟨rfl, rfl⟩
  exact ⟨outcome, mid, answered, last⟩

theorem drop_both (name : Str) (a : AccountTables) :
    (a.dropSamba name).dropSystem name = a.drop true true name := by
  simp [AccountTables.drop, AccountTables.dropSamba, AccountTables.dropSystem]

theorem drop_samba (name : Str) (a : AccountTables) :
    a.dropSamba name = a.drop true false name := by
  simp [AccountTables.drop, AccountTables.dropSamba]

theorem drop_system (name : Str) (a : AccountTables) :
    a.dropSystem name = a.drop false true name := by
  simp [AccountTables.drop, AccountTables.dropSystem]

theorem drop_none (name : Str) (a : AccountTables) : a.drop false false name = a := by
  simp [AccountTables.drop]

theorem deleteUser_makes (production : env.production = true) {username : Option Str}
    {reply : Reply} (plain : isDashed (username.getD []) = false)
    (ends : (started env (deleteUser env username)).Ends tools.step a reply a') :
    AccountChange.Makes env a (.delete username, reply) a' := by
  unfold deleteUser at ends
  dsimp only at ends
  split at ends
  next empty =>
    rcases Prog.ends_ret ends with ⟨rfl, rfl⟩
    exact .nothing (by simp [AccountChange.Succeeds, empty])
  split at ends
  next safe =>
    rcases Prog.ends_ret ends with ⟨rfl, rfl⟩
    exact .nothing (by simp [AccountChange.Succeeds])
  next filled open' =>
    rcases handSudo_ends production ends with ⟨first, mid, unlisted, rest⟩
    rcases handSudo_ends production rest with ⟨second, last, deleted, ended⟩
    have unprotected : isProtectedAccount env (username.getD []) = false := by simpa using open'
    have dropped : ∃ samba system, last = a.drop samba system (username.getD []) ∧
        (second.isDone = true → system = true) := by
      have samba := tools.smbpasswd_delete _ _ _ _ plain unlisted
      have system := tools.userdel _ _ _ _ plain deleted
      rcases samba with ⟨-, same⟩ | same <;> rcases system with ⟨failed, same'⟩ | same'
      · exact ⟨false, false, by rw [same', same, drop_none], by simp [failed]⟩
      · exact ⟨false, true, by rw [same', same, drop_system], fun _ => rfl⟩
      · exact ⟨true, false, by rw [same', same, drop_samba], by simp [failed]⟩
      · exact ⟨true, true, by rw [same', same, drop_both], fun _ => rfl⟩
    rcases dropped with ⟨samba, system, rfl, gone⟩
    change (started env (if (sudoAnswer second).1 = true then Prog.ret _ else Prog.ret _)).Ends
      _ _ _ _ at ended
    split at ended
    next done =>
      rcases Prog.ends_ret ended with ⟨rfl, rfl⟩
      exact .deleted samba system unprotected fun _ => gone done
    next failed =>
      rcases Prog.ends_ret ended with ⟨rfl, rfl⟩
      refine .deleted samba system unprotected fun success => ?_
      exact absurd (congrArg List.head? (List.cons.inj success).1) (by simp)

theorem signup_makes (production : env.production = true) {authenticated : Bool} {method : Method}
    {form : AccountForm} {reply : Reply}
    (accepted : AccountRequest.accepted (.signup authenticated method form) = true)
    (ends : (AccountRequest.view env (.signup authenticated method form)).Ends tools.step a reply
      a') :
    AccountChange.Makes env a (.create (.signup authenticated method form), reply) a' := by
  rw [AccountRequest.view_signup accepted] at ends
  rcases createAccount_ends production (accepted_username accepted) ends with
    ⟨kept, text, said⟩ | ⟨free, known, rest⟩
  · have silent : ¬AccountRequest.Succeeds reply (.signup authenticated method form) := by
      intro same
      rcases said with said | said | said <;>
      · rw [said] at same
        cases congrArg Reply.page same
    rcases kept with rfl | ⟨records, free, part, known, rfl⟩
    · exact .nothing silent
    · exact .created accepted free part known fun success => absurd success silent
  · rcases Prog.ends_ret rest with ⟨rfl, rfl⟩
    exact .created accepted free (List.Sublist.refl _) known fun _ => ⟨rfl, _, _, _, rfl⟩

theorem addUser_makes (production : env.production = true) {form : AccountForm} {reply : Reply}
    (accepted : AccountRequest.accepted (.addUser form) = true)
    (ends : (AccountRequest.view env (.addUser form)).Ends tools.step a reply a') :
    AccountChange.Makes env a (.create (.addUser form), reply) a' := by
  have valid := accepted_username accepted
  rw [AccountRequest.view_addUser accepted] at ends
  rcases createAccount_ends production valid ends with ⟨kept, text, said⟩ | ⟨free, known, rest⟩
  · have silent : ¬AccountRequest.Succeeds reply (.addUser form) := by
      intro same
      rcases said with said | said | said <;>
      · rw [said] at same
        exact absurd (congrArg List.head? (List.cons.inj same).1) (by simp)
    rcases kept with rfl | ⟨records, free, part, known, rfl⟩
    · exact .nothing silent
    · exact .created accepted free part known fun success => absurd success silent
  · rcases addSambaUser_ends production valid rest with ⟨rfl, text, said⟩ | ⟨secret, reads, rfl⟩
    · refine .created accepted free (List.Sublist.refl _) known fun success => ?_
      rw [AccountChange.Succeeds, AccountRequest.Succeeds, said] at success
      have texts := (List.cons.inj success).1
      rw [List.append_assoc, List.append_assoc, List.append_assoc] at texts
      have tails := List.append_cancel_left (List.append_cancel_left texts)
      exact absurd (congrArg (·[1]?) tails) (by simp)
    · exact .enrolled accepted free known reads

theorem step_makes (production : env.production = true) {e : AccountChange × Reply}
    (named : e.1.Named) (step : AccountChange.Step tools env a e a') :
    AccountChange.Makes env a e a' := by
  rcases e with ⟨change, reply⟩
  cases change with
  | delete username => exact deleteUser_makes production named step
  | create request =>
      cases accepted : request.accepted with
      | false =>
          rcases AccountRequest.view_refused env accepted with ⟨own, view, silent⟩
          change (request.view env).Ends _ _ _ _ at step
          rw [view] at step
          rcases Prog.ends_ret step with ⟨rfl, rfl⟩
          exact .nothing silent
      | true =>
          cases request with
          | signup authenticated method form => exact signup_makes production accepted step
          | addUser form => exact addUser_makes production accepted step

end Steps

section Kept

variable {env : Env} {a a' : AccountTables} {name : Str}

/-- The request has a password of one line, or deletes another account. -/
def AccountChange.Spares (name : Str) : AccountChange → Prop
  | create request => '\n' ∉ request.password
  | delete username => username.getD [] ≠ name

theorem setAll_other (records : List (Str × Option Str)) (a : AccountTables)
    (other : ∀ r ∈ records, r.1 ≠ name) : (a.setAll records).system name = a.system name := by
  induction records generalizing a with
  | nil => rfl
  | cons r records ih =>
      have later := ih (a.setPassword r.1 (r.2.getD []))
        fun r member => other r (List.mem_cons_of_mem _ member)
      refine later.trans ?_
      change (if name = r.1 then _ else a.system name) = _
      rw [if_neg (Ne.symm (other r List.mem_cons_self))]

/-- A password of one line is set for its own account alone, which is new. -/
theorem created_other {request : AccountRequest} {records : List (Str × Option Str)} {secret : Str}
    (accepted : request.accepted = true) (new : (a.system request.username).isSome = false)
    (part : records.Sublist request.records) (single : '\n' ∉ request.password)
    (known : a.system name = some (some secret)) :
    ((a.add request.username).setAll records).system name = some (some secret) := by
  have plain := username_plain request.username (accepted_username accepted)
  have one : request.records = [(request.username, some request.password)] :=
    (chpasswdInput_records request.username request.password plain.1 plain.2).mpr single
  have other : name ≠ request.username := by
    intro same
    rw [← same, known] at new
    cases new
  rw [setAll_other]
  · change (if name = request.username then _ else a.system name) = _
    rw [if_neg other, known]
  · intro r member
    have inside := part.subset member
    rw [one, List.mem_singleton] at inside
    rw [inside]
    exact Ne.symm other

theorem makes_spares {e : AccountChange × Reply} {secret : Str} (spares : e.1.Spares name)
    (makes : AccountChange.Makes env a e a') (known : a.system name = some (some secret)) :
    a'.system name = some (some secret) := by
  cases makes with
  | nothing silent => exact known
  | created accepted new part takes silent => exact created_other accepted new part spares known
  | @enrolled form reply secret accepted new takes reads =>
      have all := List.Sublist.refl (AccountRequest.addUser form).records
      exact created_other accepted new all spares known
  | @deleted username reply samba system unprotected done =>
      change (if system = true ∧ name = username.getD [] then none else a.system name) = _
      rw [if_neg fun both => spares both.2.symm, known]

end Kept

section Paired

/-- Every Samba account belongs to an account of the system, or to one of these names. -/
def AccountTables.PairedBut (names : List Str) (a : AccountTables) : Prop :=
  ∀ name, (a.samba name).isSome = true → (a.system name).isSome = true ∨ name ∈ names

variable {env : Env} {a a' : AccountTables} {names : List Str}

theorem setAll_samba (records : List (Str × Option Str)) (a : AccountTables) :
    (a.setAll records).samba = a.samba := by
  induction records generalizing a with
  | nil => rfl
  | cons r records ih => exact ih _

theorem add_system (username name : Str) (known : (a.system name).isSome = true) :
    ((a.add username).system name).isSome = true := by
  change (if name = username then _ else a.system name).isSome = true
  split
  · rfl
  · exact known

theorem created_paired (username : Str) (records : List (Str × Option Str))
    (paired : a.PairedBut names) : ((a.add username).setAll records).PairedBut names := by
  intro name samba
  rw [setAll_samba] at samba
  refine (paired name samba).imp_left fun known => ?_
  exact setAll_system _ _ name (add_system username name known)

theorem makes_paired {e : AccountChange × Reply}
    (named : ∀ username, e.1 = .delete username → username.getD [] ∈ names)
    (makes : AccountChange.Makes env a e a') (paired : a.PairedBut names) :
    a'.PairedBut names := by
  cases makes with
  | nothing silent => exact paired
  | created accepted new part takes silent => exact created_paired _ _ paired
  | @enrolled form reply secret accepted new takes reads =>
      intro name samba
      by_cases own : name = form.username.getD []
      · rw [own]
        refine .inl (setAll_system _ _ _ ?_)
        change Option.isSome (if form.username.getD [] = form.username.getD [] then _ else _) = true
        rw [if_pos rfl]
        rfl
      · refine created_paired (form.username.getD []) _ paired name ?_
        change Option.isSome (if name = form.username.getD [] then some secret else _) = true at samba
        rwa [if_neg own] at samba
  | @deleted username reply samba system unprotected done =>
      intro name kept
      change Option.isSome (if samba = true ∧ name = username.getD [] then none
        else a.samba name) = true at kept
      change Option.isSome (if system = true ∧ name = username.getD [] then none
        else a.system name) = true ∨ _
      by_cases own : name = username.getD []
      · rw [own]
        exact .inr (named username rfl)
      · rw [if_neg fun both => own both.2] at kept ⊢
        exact paired name kept

end Paired

section Runs

theorem systemCheck_iff {db : CharData} {env : Env} (production : env.production = true)
    (password : Str) (outcome : Outcome) :
    (systemCheck db env password outcome).1 = true ↔
      ∃ stdout stderr, outcome = .completed 0 stdout stderr := by
  unfold systemCheck
  rw [if_neg (by simp [production])]
  cases outcome with
  | completed returncode stdout stderr =>
      dsimp only
      split
      next zero => simp [zero]
      next other =>
        split
        · simp [other]
        · simp [other]
  | raised kind text => simp

def deletions (log : List (AccountChange × Reply)) : List Str :=
  log.filterMap fun e =>
    match e.1 with
    | .create _ => none
    | .delete username => some (username.getD [])

/-- In production, along every run of requests that create and delete accounts, with tools that
do what is documented of them or fail, every request makes of the tables what the specification
allows, and `sshpass` lets a user in exactly with the password of the table. A Samba account
without an account of the system is left from a deletion; and where passwords have one line, an
account keeps its password until it is deleted. -/
theorem accounts_as_tables (tools : AccountTools) (db : CharData) (env : Env)
    (production : env.production = true) (start after : AccountTables)
    (log : List (AccountChange × Reply)) (named : ∀ e ∈ log, e.1.Named)
    (run : Along (AccountChange.Step tools env) start log after) :
    Along (AccountChange.Makes env) start log after ∧
      (∀ name password outcome, tools.ssh after name password outcome →
        ((systemCheck db env password outcome).1 = true ↔
          after.system name = some (some password))) ∧
      (start.PairedBut [] → after.PairedBut (deletions log)) ∧
      ∀ name password, start.system name = some (some password) →
        (∀ e ∈ log, e.1.Spares name) → after.system name = some (some password) := by
  have makes : Along (AccountChange.Makes env) start log after :=
    run.mono fun _ _ e member step => step_makes production (named e member) step
  refine ⟨makes, ?_, ?_, ?_⟩
  · intro name password outcome answered
    rw [systemCheck_iff production, ← sudoAnswer_success]
    exact tools.ssh_accepts _ _ _ _ answered
  · intro paired
    refine makes.preserves (I := AccountTables.PairedBut (deletions log)) ?_ ?_
    · intro a a' e member
      refine makes_paired fun username same => List.mem_filterMap.mpr ⟨e, member, ?_⟩
      rw [same]
    · intro name samba
      exact (paired name samba).imp_right fun inside => absurd inside List.not_mem_nil
  · intro name password known spares
    exact makes.preserves (I := fun a => a.system name = some (some password))
      (fun a a' e member => makes_spares (spares e member)) known

/-- What tools do that fail only where they have to. -/
def plainRespond (a : AccountTables) (call : Call) : Outcome × AccountTables :=
  match call.args.drop 2, call.input with
  | [_, _, _, _, name], none =>
      if (a.system name).isSome then (.completed 9 [] "already exists".toList, a)
      else (.completed 0 [] [], a.add name)
  | [program, _, name], none =>
      (.completed 0 [] [],
        if program = "smbpasswd".toList then a.dropSamba name else a.dropSystem name)
  | [_], some input =>
      if a.takes (chpasswdRecords input) then
        (.completed 0 [] [], a.setAll (chpasswdRecords input))
      else (.completed 1 [] "changes ignored".toList, a)
  | [_, _, _, name], some input =>
      if (a.system name).isSome then
        (smbpasswdReads input).elim (.completed 1 [] "Mismatch".toList, a)
          fun secret => (.completed 0 [] [], a.setSamba name secret)
      else (.completed 1 [] "Failed to add entry".toList, a)
  | _, _ => (.completed 1 [] [], a)

def plainTools : AccountTools where
  step a call outcome a' := plainRespond a call = (outcome, a')
  ssh a name password outcome :=
    outcome = if a.system name = some (some password) then .completed 0 [] []
      else .completed 5 [] []
  useradd a name outcome a' _ step := by
    change (if (a.system name).isSome = true then _ else _) = _ at step
    cases free : (a.system name).isSome with
    | true =>
        rw [free] at step
        cases step
        exact .inl ⟨rfl, rfl⟩
    | false =>
        rw [free] at step
        cases step
        exact .inr ⟨rfl, rfl⟩
  chpasswd a input outcome a' step := by
    change (if a.takes (chpasswdRecords input) = true then _ else _) = _ at step
    split at step
    next takes =>
      cases step
      exact ⟨_, List.Sublist.refl _, takes, rfl, fun _ => rfl⟩
    next =>
      cases step
      exact ⟨[], List.nil_sublist _, rfl, rfl, fun done => by cases done⟩
  smbpasswd a name input outcome a' _ step := by
    change (if (a.system name).isSome = true then _ else _) = _ at step
    split at step
    next known =>
      cases reads : smbpasswdReads input with
      | none =>
          rw [reads] at step
          cases step
          exact .inl ⟨rfl, rfl⟩
      | some secret =>
          rw [reads] at step
          cases step
          exact .inr ⟨known, secret, rfl, rfl⟩
    next =>
      cases step
      exact .inl ⟨rfl, rfl⟩
  smbpasswd_delete a name outcome a' _ step := by
    change (_, if "smbpasswd".toList = "smbpasswd".toList then a.dropSamba name else _) = _ at step
    rw [if_pos rfl] at step
    exact .inr (Prod.mk.inj step).2.symm
  userdel a name outcome a' _ step := by
    change (_, if "userdel".toList = "smbpasswd".toList then _ else a.dropSystem name) = _ at step
    rw [if_neg (by decide)] at step
    exact .inr (Prod.mk.inj step).2.symm
  ssh_accepts a name password outcome answered := by
    rw [answered]
    split
    next same => exact iff_of_true rfl same
    next other => exact iff_of_false (by decide) other

def plainRun (env : Env) : AccountTables → List AccountChange →
    List (AccountChange × Reply) × AccountTables
  | a, [] => ([], a)
  | a, change :: changes =>
      let (reply, a') := (change.view env).answeredBy plainRespond a
      let (log, after) := plainRun env a' changes
      ((change, reply) :: log, after)

theorem along_plainRun (env : Env) (changes : List AccountChange) (a : AccountTables) :
    Along (AccountChange.Step plainTools env) a (plainRun env a changes).1
      (plainRun env a changes).2 := by
  induction changes generalizing a with
  | nil => exact .nil
  | cons change changes ih => exact .cons (Prog.ends_answeredBy _ a) (ih _)

/-- A name that is signed up for a second time, and an account that is added and deleted. -/
def eveAndBob : List AccountChange :=
  [.create (.addUser ⟨some "bob".toList, some "b".toList⟩),
    .create (.signup false .post ⟨some "eve".toList, some "longenough2".toList⟩),
    .delete (some "bob".toList)]

theorem accounts_as_tables_eve :
    let start : AccountTables :=
      ⟨fun name => if name = "eve".toList then some (some "longenough1".toList) else none,
        fun _ => none⟩
    let after := (plainRun exampleEnv start eveAndBob).2
    after.system "eve".toList = some (some "longenough1".toList) ∧
      after.PairedBut ["bob".toList] := by
  intro start after
  have changes : (plainRun exampleEnv start eveAndBob).1.map Prod.fst = eveAndBob := rfl
  have each (P : AccountChange → Prop) (all : ∀ change ∈ eveAndBob, P change) :
      ∀ e ∈ (plainRun exampleEnv start eveAndBob).1, P e.1 := by
    intro e member
    apply all
    rw [← changes]
    exact List.mem_map_of_mem member
  have tables := accounts_as_tables plainTools .ascii exampleEnv rfl start after _
    (each _ (by
      intro change member
      simp only [eveAndBob, List.mem_cons, List.not_mem_nil, or_false] at member
      rcases member with rfl | rfl | rfl <;> unfold AccountChange.Named <;> decide))
    (along_plainRun exampleEnv eveAndBob start)
  have known : start.system "eve".toList = some (some "longenough1".toList) := rfl
  refine ⟨tables.2.2.2 _ _ known (each _ ?_), tables.2.2.1 ?_⟩
  · intro change member
    simp only [eveAndBob, List.mem_cons, List.not_mem_nil, or_false] at member
    rcases member with rfl | rfl | rfl <;> unfold AccountChange.Spares <;> decide
  · intro name samba
    cases samba

end Runs

end SmolNas.App
