import SmolNas.App.Login
import SmolNas.App.SudoRoutes

/-! What `logout` and `delete_user` take back. A cookie is signed and carries its whole
session; the server keeps no list of sessions, and `load_user` does not look for the
account. -/

namespace SmolNas.App

open Py Lib

/-- A request with the answers of the programs that `delete_user` hands to `sudo`. -/
structure Visit where
  request : Request
  circumstances : Circumstances
  answers : Nat → Outcome

def Visit.deletion (env : Env) (v : Visit) : Reply :=
  ((deleteUser env v.request.username).exec v.answers).2

def Visit.seen (env : Env) (v : Visit) : Circumstances :=
  if v.request.endpoint = .deleteUser then
    { v.circumstances with messages := (v.deletion env).flashes, renders := false }
  else v.circumstances

def serveVisit (db : CharData) (env : Env) (attempts : Attempts) (s : Session) (v : Visit) :
    Attempts × Session × Served :=
  serve db env attempts s (v.request, v.seen env)

def visitServer (db : CharData) (env : Env) : Replay.Server Attempts Session Served Visit :=
  ⟨Session.empty, serveVisit db env⟩

abbrev Cookies := Replay.World Attempts Session Served

/-- The user that a request with this session is treated as. -/
def Session.IsFor (s : Session) (username : Str) : Prop :=
  s.loadUser.map User.id = some username

def deletedMessage (username : Str) : Str :=
  "User '".toList ++ username ++ "' deleted successfully.".toList

def ReportsDeleted (db : CharData) (env : Env) (w : Cookies) (event : Option Nat × Visit)
    (username : Str) : Prop :=
  let token := Replay.present (visitServer db env) w event.1
  (serveVisit db env w.shared token.session event.2).2.2 = ⟨.deleteUser, true, none⟩ ∧
    event.2.request.username = some username ∧
    (event.2.deletion env).flashes = [deletedMessage username]

def RunsLogout (db : CharData) (env : Env) (w : Cookies) (event : Option Nat × Visit) : Prop :=
  let token := Replay.present (visitServer db env) w event.1
  (serveVisit db env w.shared token.session event.2).2.2 = ⟨.logout, true, none⟩

/-- A successful login of a user is on the way to the cookie, with no other one and no
logout after it. -/
def LoggedIn (history : List Served) (username : Str) : Prop :=
  ∃ before password after, history = before ++ ⟨.login, true, some (username, password)⟩ :: after ∧
    ∀ served ∈ after, served.succeeded = none ∧ ¬(served.endpoint = .logout ∧ served.ran = true)

theorem loggedIn_concat (history : List Served) (served : Served) (username : Str) :
    LoggedIn (history ++ [served]) username ↔
      (∃ password, served = ⟨.login, true, some (username, password)⟩) ∨
        (served.succeeded = none ∧ ¬(served.endpoint = .logout ∧ served.ran = true)) ∧
          LoggedIn history username := by
  constructor
  · intro loggedIn
    rcases loggedIn with ⟨before, password, after, whole, quiet⟩
    rcases List.eq_nil_or_concat after with none | ⟨earlier, last, parts⟩
    · subst none
      have same := (List.append_inj' whole rfl).2
      exact .inl ⟨password, List.head_eq_of_cons_eq same⟩
    · subst parts
      have regrouped : history ++ [served] =
          (before ++ ⟨.login, true, some (username, password)⟩ :: earlier) ++ [last] := by
        simpa using whole
      have parts := List.append_inj' regrouped rfl
      have same := List.head_eq_of_cons_eq parts.2
      subst same
      refine .inr ⟨quiet served (by simp), before, password, earlier, parts.1, ?_⟩
      intro other member
      exact quiet other (by simp [member])
  · intro cases
    rcases cases with ⟨password, same⟩ | ⟨calm, before, password, after, whole, quiet⟩
    · exact ⟨history, password, [], by rw [same], by simp⟩
    · refine ⟨before, password, after ++ [served], by simp [whole], ?_⟩
      intro other member
      rcases List.mem_append.mp member with earlier | last
      · exact quiet other earlier
      · rw [List.mem_singleton.mp last]
        exact calm

inductive UserEffect (s : Session) : Session → Served → Prop where
  | entered {s' : Session} {username password : Str} : s'.userId = some username →
      UserEffect s s' ⟨.login, true, some (username, password)⟩
  | left {s' : Session} : s'.userId = none → UserEffect s s' ⟨.logout, true, none⟩
  | kept {s' : Session} {served : Served} : served.succeeded = none →
      ¬(served.endpoint = .logout ∧ served.ran = true) → s'.userId = s.userId →
      UserEffect s s' served

theorem login_user (db : CharData) (env : Env) (r : Request) (c : Circumstances)
    (attempts : Attempts) (s : Session) :
    UserEffect s (login db env r c attempts s).session
      ⟨.login, true, (login db env r c attempts s).succeeded⟩ := by
  have elsewhere : ¬(Endpoint.login = .logout ∧ true = true) := by simp
  unfold login
  split
  · exact .kept rfl elsewhere rfl
  split
  · exact .kept rfl elsewhere rfl
  dsimp only
  split
  · exact .kept rfl elsewhere rfl
  split
  · exact .kept rfl elsewhere rfl
  split
  · exact .entered rfl
  · split
    · exact .entered rfl
    · exact .kept rfl elsewhere rfl

theorem body_user (db : CharData) (env : Env) (attempts : Attempts) (s : Session)
    (r : Request) (c : Circumstances) :
    UserEffect s (body db env attempts s r c).2.1 (body db env attempts s r c).2.2 := by
  unfold body
  split
  · exact login_user db env r c attempts s
  · exact .left rfl
  next _ other =>
    refine .kept rfl (fun out => other out.1) ?_
    unfold otherView
    split
    · rfl
    · rfl

theorem serveVisit_user (db : CharData) (env : Env) (attempts : Attempts) (s : Session)
    (v : Visit) : UserEffect s (serveVisit db env attempts s v).2.1
      (serveVisit db env attempts s v).2.2 := by
  unfold serveVisit
  rcases serve_cases db env attempts s v.request (v.seen env) with ⟨messages, same⟩ | ⟨same, -⟩
  · rw [same]
    exact .kept rfl (by simp [refused]) rfl
  · rw [same]
    exact body_user db env attempts s v.request (v.seen env)

def OwnLogin (token : Token Session Served) : Prop :=
  ∀ username, token.session.userId = some username ↔ LoggedIn token.history username

theorem ownLogin_handed {token : Token Session Served} {s' : Session} {served : Served}
    (effect : UserEffect token.session s' served) (own : OwnLogin token) :
    OwnLogin ⟨s', token.history ++ [served]⟩ := by
  intro username
  rw [loggedIn_concat, ← own username]
  cases effect with
  | entered named =>
      rw [named]
      simp [eq_comm]
  | left gone => simp [gone]
  | kept none calm same =>
      rw [same]
      constructor
      · intro named
        exact .inr ⟨⟨none, calm⟩, named⟩
      · intro cases
        rcases cases with ⟨password, login⟩ | ⟨-, named⟩
        · rw [login] at none
          cases none
        · exact named

theorem ownLogin_present (db : CharData) (env : Env) (attempts : Attempts)
    (requests : List (Option Nat × Visit)) (client : Option Nat) :
    OwnLogin (Replay.present (visitServer db env)
      (Replay.run (visitServer db env) ⟨attempts, []⟩ requests) client) := by
  refine Replay.run_present ?_ ?_ _ (fun _ member => by cases member) requests client
  · intro username
    simp [visitServer, Session.empty, LoggedIn]
  · intro shared token request own
    exact ownLogin_handed (serveVisit_user db env shared token.session request) own

theorem isFor_iff (s : Session) (username : Str) : s.IsFor username ↔ s.userId = some username := by
  rcases s with ⟨userId, isAdmin, csrfToken, flashes⟩
  cases userId with
  | none => simp [Session.IsFor, Session.loadUser]
  | some id => simp [Session.IsFor, Session.loadUser]

/-- After any requests of any clients, a request is treated as a user exactly when that
user's login is on the way to its cookie with no logout after it; whatever is served
later, `logout` and `delete_user` included, a cookie stays what it is. -/
theorem authenticated_by_own_login (db : CharData) (env : Env) (attempts : Attempts)
    (requests : List (Option Nat × Visit)) :
    let w := Replay.run (visitServer db env) ⟨attempts, []⟩ requests
    (∀ client username, (Replay.present (visitServer db env) w client).session.IsFor username ↔
      LoggedIn (Replay.present (visitServer db env) w client).history username) ∧
    ∀ i, i < w.issued.length → ∀ later,
      Replay.present (visitServer db env) (Replay.run (visitServer db env) w later) (some i) =
        Replay.present (visitServer db env) w (some i) := by
  intro w
  constructor
  · intro client username
    rw [isFor_iff]
    exact ownLogin_present db env attempts requests client username
  · intro i issued later
    exact Replay.present_run w later i issued

def visit (request : Request) : Visit := ⟨request, quiet, fun _ => .completed 0 [] []⟩

def quietVisits (requests : List (Option Nat × Request × Circumstances)) :
    List (Option Nat × Visit) :=
  requests.map fun request => (request.1, ⟨request.2.1, request.2.2, fun _ => .completed 0 [] []⟩)

def logoutVisit : Visit := visit ⟨.logout, .get, none, false, none, none, none, none⟩

def deleteVisit : Visit :=
  visit ⟨.deleteUser, .post, some "token".toList, false, none, none, some "bob".toList, none⟩

def bobRequests : List (Option Nat × Request × Circumstances) :=
  (loginRequests none 0 "bob".toList "pass".toList).map fun request =>
    (request.1, request.2.1, { request.2.2 with sshpass := .completed 0 [] [] })

/-- The cookie with which `logout` was requested is still good after it, and so is the
cookie of a user whose account has been deleted. -/
theorem old_cookie_authenticated :
    (¬∀ (db : CharData) (env : Env) (attempts : Attempts) (before : List (Option Nat × Visit))
      (client : Nat) (v : Visit) (username : Str) (after : List (Option Nat × Visit)),
      let w := Replay.run (visitServer db env) ⟨attempts, []⟩ before
      RunsLogout db env w (some client, v) →
      (Replay.present (visitServer db env) w (some client)).session.IsFor username →
      (∀ served ∈ Replay.entries (visitServer db env) w ((some client, v) :: after),
        served.succeeded = none) →
      ¬(Replay.present (visitServer db env)
        (Replay.run (visitServer db env) w ((some client, v) :: after))
          (some client)).session.IsFor username) ∧
    (¬∀ (db : CharData) (env : Env) (attempts : Attempts) (before : List (Option Nat × Visit))
      (event : Option Nat × Visit) (username : Str) (after : List (Option Nat × Visit)) (i : Nat),
      let w := Replay.run (visitServer db env) ⟨attempts, []⟩ before
      ReportsDeleted db env w event username → i < w.issued.length →
      (∀ served ∈ Replay.entries (visitServer db env) w (event :: after),
        served.succeeded = none) →
      ¬(Replay.present (visitServer db env) (Replay.run (visitServer db env) w (event :: after))
        (some i)).session.IsFor username) := by
  constructor
  · intro all
    refine all .ascii exampleEnv (fun _ => [])
      (quietVisits (loginRequests none 0 "dev".toList "secret".toList)) 1 logoutVisit
      "dev".toList [] ?_ ?_ ?_ ?_
    · show _ = _
      decide +kernel
    · show _ = _
      decide +kernel
    · decide +kernel
    · show _ = _
      decide +kernel
  · intro all
    refine all .ascii exampleEnv (fun _ => [])
      (quietVisits (bobRequests ++ loginRequests none 2 "dev".toList "secret".toList))
      (some 3, deleteVisit) "bob".toList [] 1 ⟨?_, ?_, ?_⟩ ?_ ?_ ?_
    · decide +kernel
    · decide +kernel
    · decide +kernel
    · decide +kernel
    · decide +kernel
    · show _ = _
      decide +kernel

end SmolNas.App
