import SmolNas.App.Appliance

/-! The calls of `log_audit_event` against the requests that were served: who they name, and
which request each of them belongs to. -/

namespace SmolNas.App

open Py Fs Lib

section Trails

def AdminEntered (env : Env) (log : List Served) : Prop :=
  ∃ served ∈ log, served.succeeded = some (env.nasUser, env.nasPassword)

/-- The event is reported by this request, whose user has logged in before. Only the
administrator deletes. -/
def Writes (env : Env) (log : List Served) (endpoint : Endpoint) (event : AuditEvent) : Prop :=
  Entered log event.username ∧
    (endpoint = .uploadFile ∧ event.action = "File Upload".toList ∨
      endpoint = .deleteFile ∧ event.action = "File/Folder Deleted".toList ∧
        event.username = env.nasUser ∧ AdminEntered env log)

/-- The events in order, each reported by a request of its own that was served. -/
inductive Trail (env : Env) : List Served → List AuditEvent → Prop where
  | start : Trail env [] []
  | quiet {log : List Served} {events : List AuditEvent} (served : Served) :
      Trail env log events → Trail env (log ++ [served]) events
  | event {log : List Served} {events : List AuditEvent} {served : Served} {event : AuditEvent} :
      Trail env log events → served.ran = true → Writes env log served.endpoint event →
      Trail env (log ++ [served]) (events ++ [event])

end Trails

section Sessions

/-- The session names a user who has logged in, and is an administrator's only after a
login with the credentials of the administrator. -/
structure Known (env : Env) (log : List Served) (s : Session) : Prop where
  user : ∀ username, s.userId = some username → Entered log username
  admin : s.passesAdmin = true → s.userId = some env.nasUser ∧ AdminEntered env log

variable {env : Env} {log : List Served} {s : Session}

theorem Known.later (known : Known env log s) (more : List Served) : Known env (log ++ more) s where
  user := fun username same => (known.user username same).later more
  admin := by
    intro passes
    rcases known.admin passes with ⟨user, served, member, entered⟩
    exact ⟨user, served, List.mem_append_left more member, entered⟩

theorem known_served {s' : Session} {served : Served} (known : Known env log s)
    (effect : Effect env s s' served.succeeded) (named : UserEffect s s' served) :
    Known env (log ++ [served]) s' := by
  cases named with
  | entered user =>
      rename_i username password
      have here : (⟨.login, true, some (username, password)⟩ : Served) ∈
          log ++ [⟨.login, true, some (username, password)⟩] := by simp
      constructor
      · intro other same
        rw [user] at same
        cases same
        exact ⟨_, here, password, rfl⟩
      · intro passes
        cases effect with
        | admin => exact ⟨user, _, here, rfl⟩
        | standard plain =>
            rw [passesAdmin_iff, plain] at passes
            cases passes.2
  | left gone =>
      constructor
      · intro username same
        rw [gone] at same
        cases same
      · intro passes
        rw [passesAdmin_iff, gone] at passes
        cases passes.1
  | kept none calm user =>
      rw [none] at effect
      constructor
      · intro username same
        rw [user] at same
        exact (known.user username same).later [served]
      · intro passes
        cases effect with
        | kept same =>
            rw [passesAdmin_iff, same.1, same.2, ← passesAdmin_iff] at passes
            rw [user]
            exact (known.later [served]).admin passes
        | left gone =>
            rw [passesAdmin_iff, gone] at passes
            cases passes.1

end Sessions

section Events

variable (site : Site) (m : Machine) (s : Session) (v : Submission)

theorem upload_audit (st : FileState) (sanitizer : Sanitizer) (cwd user : Str)
    (file path : Option Str) (body : List UInt8) (fault : SaveFault) :
    (st.upload sanitizer cwd user file path body fault).audit = st.audit ∨
      ∃ event, (st.upload sanitizer cwd user file path body fault).audit = st.audit ++ [event] ∧
        event.username = user ∧ event.action = "File Upload".toList := by
  unfold FileState.upload
  split
  next place message event saved =>
    cases fault with
    | atOpen => exact .inl rfl
    | afterBytes n => exact .inl rfl
    | none => exact .inr ⟨event, rfl, uploadFile_event saved⟩
  next => exact .inl rfl

theorem delete_audit (st : FileState) (env : Env) (cwd user : Str) (path : Option Str)
    (fault : Option RmFault) :
    (st.delete env cwd user path fault).audit = st.audit ∨
      ∃ event, (st.delete env cwd user path fault).audit = st.audit ++ [event] ∧
        event.username = user ∧ event.action = "File/Folder Deleted".toList := by
  unfold FileState.delete
  split
  · dsimp only
    split
    · exact .inr ⟨_, rfl, rfl, rfl⟩
    · exact .inl rfl
  · exact .inl rfl

theorem programs_audit {A : Type} (p : Proc A) (shown : A → Circumstances) :
    (m.programs v p shown).1.files.audit = m.files.audit := by
  unfold Machine.programs
  dsimp only
  split
  · rfl
  · rfl

theorem stores_audit (mock : Bool) (files : FileState) :
    (m.stores v mock files).1.files.audit = files.audit :=
  programs_audit { m with files } v _ _

theorem perform_audit :
    (m.perform v site s).1.files.audit = m.files.audit ∨
      ∃ event, (m.perform v site s).1.files.audit = m.files.audit ++ [event] ∧
        event.username = s.userId.getD [] ∧
        (v.endpoint = .uploadFile ∧ event.action = "File Upload".toList ∨
          v.endpoint = .deleteFile ∧ event.action = "File/Folder Deleted".toList) := by
  cases here : v.endpoint
  case uploadFile =>
    rw [Machine.perform, here]
    rcases upload_audit m.files site.sanitizer site.cwd (s.userId.getD []) v.file (v.form "path")
      v.body v.saveFault with same | ⟨event, more, user, action⟩
    · exact .inl ((stores_audit m v site.mock _).trans same)
    · exact .inr ⟨event, (stores_audit m v site.mock _).trans more, user, .inl ⟨rfl, action⟩⟩
  case deleteFile =>
    rw [Machine.perform, here]
    rcases delete_audit m.files site.env site.cwd (s.userId.getD []) (v.form "path") v.rmFault
      with same | ⟨event, more, user, action⟩
    · exact .inl ((stores_audit _ v site.mock _).trans same)
    · exact .inr ⟨event, (stores_audit _ v site.mock _).trans more, user, .inr ⟨rfl, action⟩⟩
  case index =>
    rw [Machine.perform, here]
    exact .inl (programs_audit m v _ fun _ => v.circumstances)
  all_goals
    rw [Machine.perform, here]
    first
    | exact .inl rfl
    | exact .inl (programs_audit _ v _ _)

theorem serve_audit :
    (m.serve v site s).1.files.audit = m.files.audit ∨
      (m.serve v site s).2.2.ran = true ∧
        ∃ event, (m.serve v site s).1.files.audit = m.files.audit ++ [event] ∧
          event.username = s.userId.getD [] ∧
          (v.endpoint = .uploadFile ∧ event.action = "File Upload".toList ∨
            v.endpoint = .deleteFile ∧ event.action = "File/Folder Deleted".toList) := by
  have whole : (m.serve v site s).1.files.audit =
      (if (m.serve v site s).2.2.ran then (m.perform v site s).1 else m).files.audit := rfl
  rw [whole]
  split
  next ran =>
    rcases perform_audit site m s v with same | event
    · exact .inl same
    · exact .inr ⟨ran, event⟩
  next => exact .inl rfl

end Events

section Runs

structure Audited (env : Env) (before : Machine) (log : List Served)
    (w : Replay.World Machine Session Served) : Prop where
  tokens : ∀ token ∈ w.issued, Known env log token.session
  trail : ∃ events, w.shared.files.audit = before.files.audit ++ events ∧ Trail env log events

variable {site : Site} {before : Machine} {log : List Served}
  {w : Replay.World Machine Session Served}

theorem writes_ran {m : Machine} {v : Submission} {s : Session} {event : AuditEvent}
    (known : Known site.env log s) (ran : (m.serve v site s).2.2.ran = true)
    (named : event.username = s.userId.getD [])
    (kind : v.endpoint = .uploadFile ∧ event.action = "File Upload".toList ∨
      v.endpoint = .deleteFile ∧ event.action = "File/Folder Deleted".toList) :
    Writes site.env log (m.serve v site s).2.2.endpoint event := by
  have own : (m.serve v site s).2.2.endpoint = v.endpoint := serve_endpoint
  have checked : (v.endpoint.guard ≠ .open → s.isAuthenticated = true) ∧
      (v.endpoint.guard = .adminRequired → s.passesAdmin = true) := serve_ran ran
  have guarded : v.endpoint.guard ≠ .open := by
    rcases kind with upload | delete
    · rw [upload.1]
      decide
    · rw [delete.1]
      decide
  have user : s.userId = some event.username := by
    have authenticated := checked.1 guarded
    rw [Session.isAuthenticated, Session.loadUser, Option.isSome_map] at authenticated
    rcases Option.isSome_iff_exists.mp authenticated with ⟨username, same⟩
    rw [named, same]
    rfl
  refine ⟨known.user event.username user, ?_⟩
  rw [own]
  rcases kind with upload | delete
  · exact .inl upload
  · have admin := known.admin (checked.2 (by rw [delete.1]; rfl))
    rw [user] at admin
    exact .inr ⟨delete.1, delete.2, Option.some.inj admin.1, admin.2⟩

theorem audited_step (audited : Audited site.env before log w)
    (request : Option Nat × Submission) :
    let token := Replay.present (appliance site) w request.1
    Audited site.env before (log ++ [(w.shared.serve request.2 site token.session).2.2])
      (Replay.step (appliance site) w request) := by
  intro token
  have known : Known site.env log token.session := by
    refine Replay.present_issued (P := fun token => Known site.env log token.session) ⟨?_, ?_⟩
      audited.tokens request.1
    · intro username same
      cases same
    · intro passes
      cases passes
  constructor
  · intro other member
    rcases Replay.step_issued member with old | new
    · exact (audited.tokens other old).later _
    · rw [new]
      exact known_served known (machine_effect w.shared request.2 site token.session)
        (machine_user w.shared request.2 site token.session)
  · rcases audited.trail with ⟨events, written, trail⟩
    rcases serve_audit site w.shared token.session request.2 with
      same | ⟨ran, event, more, user, kind⟩
    · exact ⟨events, same.trans written, .quiet _ trail⟩
    · refine ⟨events ++ [event], ?_, .event trail ran (writes_ran known ran user kind)⟩
      rw [← List.append_assoc, ← written]
      exact more

/-- In every run, whatever cookies the clients present, each call of `log_audit_event` is made by a
request of its own whose view ran, in the order of the requests. It names a user who had
logged in before, and the events of deletions name the administrator. -/
theorem audit_attributed (site : Site) (m : Machine) (requests : List (Option Nat × Submission)) :
    ∃ events, (Replay.run (appliance site) ⟨m, []⟩ requests).shared.files.audit =
        m.files.audit ++ events ∧
      Trail site.env (Replay.entries (appliance site) ⟨m, []⟩ requests) events := by
  have start : Audited site.env m [] ⟨m, []⟩ := ⟨by simp, [], by simp, .start⟩
  have run : Audited site.env m (Replay.entries (appliance site) ⟨m, []⟩ requests)
      (Replay.run (appliance site) ⟨m, []⟩ requests) := by
    refine @Replay.run_served _ _ _ _ _ (appliance site) (Audited site.env m) (fun _ => True) ?_
      requests (fun _ _ => trivial) _ _ start
    intro log w request _ audited
    exact audited_step audited request
  exact run.trail

end Runs

end SmolNas.App
