import SmolNas.App.SudoRoutes

/-! The lists that the account views hand on are the programs that they start. -/

namespace SmolNas.App

open Py Lib

variable {A B : Type} (env : Env)

theorem started_bind (p : Hands A) (f : A → Hands B) :
    started env (p.bind f) = (started env p).bind fun a => started env (f a) := by
  induction p with
  | ret a => rfl
  | ask handed next ih =>
      cases handed with
      | toSudo command =>
          simp only [Prog.bind, started]
          split
          · exact ih _
          · simp only [Prog.bind, ih]
      | direct command input => simp only [Prog.bind, started, ih]

theorem started_handSudo (command : Command) :
    started env (handSudo env command) = runSudoCommand env ("sudo".toList :: command.list) := by
  rw [handSudo, started, runSudoCommand]
  split
  next simulated => rfl
  next production => rfl

theorem sudoAnswer_success (outcome : Outcome) :
    (sudoAnswer outcome).1 = true ↔ ∃ stdout stderr, outcome = .completed 0 stdout stderr := by
  cases outcome with
  | completed returncode stdout stderr =>
      rw [sudoAnswer]
      split
      next zero => exact ⟨fun _ => ⟨stdout, stderr, by rw [zero]⟩, fun _ => rfl⟩
      next other =>
        refine iff_of_false ?_ ?_
        · dsimp only
          split <;> simp
        · intro given
          rcases given with ⟨_, _, same⟩
          exact other (Outcome.completed.inj same).1
  | raised kind text =>
      refine iff_of_false ?_ ?_
      · cases kind <;> simp [sudoAnswer]
      · intro given
        rcases given with ⟨_, _, same⟩
        cases same

theorem createAccount_calls (username password addFailed setFailed setRaised : Str)
    (back : Endpoint) (next : Proc Reply) (answer : Nat → Outcome)
    (production : env.production = true) :
    ((createAccount env username password addFailed setFailed setRaised back next).exec answer).1 =
      ⟨finalCmd (useraddArgs username), none⟩ ::
        if (sudoAnswer (answer 0)).1 = true then
          ⟨chpasswdArgs, some (chpasswdInput username password)⟩ ::
            if (sudoAnswer (answer 1)).1 = true then (next.exec fun i => answer (i + 2)).1 else []
        else [] := by
  change (Prog.exec (Prog.bind (runSudoCommand env _) _) _).1 = _
  rw [Prog.exec_bind, runSudoCommand_exec env _ production]
  dsimp only [List.singleton_append]
  congr 1
  cases (sudoAnswer (answer 0)).1 with
  | false => rfl
  | true =>
      rw [if_neg (by decide), if_neg (by simp [production]), if_pos rfl]
      change (Prog.exec (Prog.bind (Prog.call _) _) _).1 = _
      rw [Prog.exec_bind]
      change _ :: _ = _
      congr 1
      dsimp only [Prog.call, Prog.exec, List.length_singleton, Nat.zero_add]
      change (Prog.exec _ _).1 = _
      cases answer 1 with
      | completed returncode stdout stderr =>
          dsimp only
          by_cases zero : returncode = 0
          · subst zero
            rfl
          · have failed : ¬(sudoAnswer (.completed returncode stdout stderr)).1 = true := by
              rw [sudoAnswer_success]
              intro given
              rcases given with ⟨_, _, same⟩
              exact zero (Outcome.completed.inj same).1
            rw [if_pos zero, if_neg failed]
            rfl
      | raised kind text => cases kind <;> rfl

theorem addSambaUser_calls (username password : Str) (answer : Nat → Outcome)
    (production : env.production = true) :
    ((addSambaUser env username password).exec answer).1 =
      [⟨smbpasswdArgs username, some (smbpasswdInput password)⟩] := by
  rw [addSambaUser]
  dsimp only
  rw [if_neg (by simp [production])]
  change (Prog.exec (Prog.bind (Prog.call _) _) _).1 = _
  rw [Prog.exec_bind]
  dsimp only [Prog.call, Prog.exec]
  cases answer 0 with
  | completed returncode stdout stderr =>
      dsimp only
      split <;> rfl
  | raised kind text => rfl

theorem hands_calls (username password : Str) (route : AccountRoute) (answer : Nat → Outcome)
    (accepted : route.accepts username password = true) (production : env.production = true) :
    ((started env (route.hands env username password)).exec answer).1 =
      ⟨finalCmd (useraddArgs username), none⟩ ::
        if (sudoAnswer (answer 0)).1 = true then
          ⟨chpasswdArgs, some (chpasswdInput username password)⟩ ::
            if (sudoAnswer (answer 1)).1 = true ∧ route = .addUser then
              [⟨smbpasswdArgs username, some (smbpasswdInput password)⟩]
            else []
        else [] := by
  rw [AccountRoute.hands, if_pos accepted]
  change (Prog.exec (started env (Prog.bind (handSudo env _) _)) _).1 = _
  rw [started_bind, started_handSudo, Prog.exec_bind, runSudoCommand_exec env _ production]
  dsimp only [List.singleton_append]
  congr 1
  rw [production, Bool.and_true]
  cases (sudoAnswer (answer 0)).1 with
  | false => rfl
  | true =>
      rw [if_pos rfl, if_pos rfl, AccountRoute.handPassword]
      change (Prog.exec (started env (Prog.bind (Prog.call _) _)) _).1 = _
      rw [started_bind, Prog.exec_bind]
      change _ :: _ = _
      congr 1
      dsimp only [Prog.call, Prog.exec, started, List.length_singleton, Nat.zero_add]
      change (Prog.exec _ _).1 = _
      split
      next success =>
        rw [success]
        rfl
      next other =>
        rw [if_neg]
        · rfl
        · intro given
          obtain ⟨stdout, stderr, success⟩ := (sudoAnswer_success _).mp given.1
          exact other stdout stderr success given.2

theorem request_refused (username password : Str) (route : AccountRoute) (answer : Nat → Outcome)
    (refused : route.accepts username password = false) :
    ((route.request env ⟨some username, some password⟩).exec answer).1 = [] := by
  cases route with
  | signup =>
      simp only [AccountRoute.accepts, Bool.and_eq_false_iff, decide_eq_false_iff_not,
        not_le] at refused
      unfold AccountRoute.request App.signup
      dsimp only [Option.getD_some]
      split_ifs <;> first | rfl | tauto
  | addUser =>
      simp only [AccountRoute.accepts, Bool.and_eq_false_iff, decide_eq_false_iff_not] at refused
      unfold AccountRoute.request App.addUser
      dsimp only [Option.getD_some]
      split_ifs <;> first | rfl | tauto

theorem request_simulated (username password : Str) (route : AccountRoute) (answer : Nat → Outcome)
    (accepted : route.accepts username password = true) (simulated : env.production = false) :
    ((route.request env ⟨some username, some password⟩).exec answer).1 = [] := by
  have created (addFailed setFailed setRaised : Str) (back : Endpoint) (next : Proc Reply) :
      createAccount env username password addFailed setFailed setRaised back next = next := by
    change Prog.bind (runSudoCommand env _) _ = next
    rw [runSudoCommand, if_pos simulated, Prog.bind]
    dsimp only
    rw [if_neg (by decide), if_pos simulated]
  cases route with
  | signup =>
      rw [signup_accepted env username password accepted, created]
      rfl
  | addUser =>
      rw [addUser_accepted env username password accepted, created, addSambaUser]
      dsimp only
      rw [if_pos simulated]
      rfl

theorem hands_simulated (username password : Str) (route : AccountRoute) (answer : Nat → Outcome)
    (simulated : env.production = false) :
    ((started env (route.hands env username password)).exec answer).1 = [] := by
  rw [AccountRoute.hands]
  split
  · change (Prog.exec (started env (Prog.bind (handSudo env _) _)) _).1 = _
    rw [started_bind, started_handSudo, runSudoCommand, if_pos simulated, Prog.bind]
    dsimp only
    rw [simulated, if_neg (by decide)]
    rfl
  · rfl

theorem started_account (username password : Str) (route : AccountRoute) (answer : Nat → Outcome) :
    ((started env (route.hands env username password)).exec answer).1 =
      ((route.request env ⟨some username, some password⟩).exec answer).1 := by
  cases accepted : route.accepts username password with
  | false =>
      rw [AccountRoute.hands, if_neg (by simp [accepted]), request_refused _ _ _ _ _ accepted]
      rfl
  | true =>
      cases production : env.production with
      | false =>
          rw [hands_simulated _ _ _ _ _ production, request_simulated _ _ _ _ _ accepted production]
      | true =>
          rw [hands_calls _ _ _ _ _ accepted production]
          cases route with
          | signup =>
              rw [signup_accepted env username password accepted,
                createAccount_calls _ _ _ _ _ _ _ _ _ production]
              simp only [reduceCtorEq, and_false, if_false, Prog.exec, ite_self]
          | addUser =>
              rw [addUser_accepted env username password accepted,
                createAccount_calls _ _ _ _ _ _ _ _ _ production,
                addSambaUser_calls _ _ _ _ production]
              simp only [and_true]

end SmolNas.App
