import SmolNas.App.Commands
import SmolNas.App.Session
import SmolNas.App.Throttle
import SmolNas.Lib.Replay
import SmolNas.Py.Regex

/-! `login`, `logout` and the guards of the other views, over the session cookies
that clients keep and may present again. -/

namespace SmolNas.App

open Py Lib

/-- What the world contributes to one request: clock readings, the outcome of
`sshpass`, a random token, and what a view other than `login` and `logout` shows. -/
structure Circumstances where
  now : Rat
  later : Rat
  sshpass : Outcome
  fresh : Str
  messages : List Str
  renders : Bool

def isLoginStart (c : Char) : Bool := c.isAlpha || c == '_'

def isLoginChar (c : Char) : Bool := c.isAlphanum || c == '_' || c == '-'

/-- `[a-zA-Z_][a-zA-Z0-9_-]{0,31}` -/
def loginNameRe : Re := .seq (.one isLoginStart) (.upTo (.one isLoginChar) 31)

def csrfFailed : Str :=
  "Security check failed: invalid or missing CSRF token. Please try again.".toList

def loginMissing : Str := "Please log in to access this page.".toList

def adminMissing : Str := "Administrator privileges required to access this page.".toList

def invalidLogin : Str := "Invalid username or password".toList

def systemCheck (db : CharData) (env : Env) (password : Str) (sshpass : Outcome) :
    Bool × List Str :=
  if env.production = false then (password == "raspberry".toList, [])
  else
    match sshpass with
    | .completed returncode _ stderr =>
        if returncode = 0 then (true, [])
        else if contains (db.lower stderr) "not found".toList then
          (false, ["System Error: 'sshpass' is not installed on the server.".toList])
        else (false, [])
    | .raised _ _ => (false, [])

structure LoginResult where
  session : Session
  attempts : Attempts
  /-- The user name and password of a login that succeeded. -/
  succeeded : Option (Str × Str)

def login (db : CharData) (env : Env) (r : Request) (c : Circumstances) (attempts : Attempts)
    (s : Session) : LoginResult :=
  if s.isAuthenticated then ⟨s, attempts, none⟩
  else if r.method = .get then ⟨s.renderPage c.fresh, attempts, none⟩
  else
    let username := r.username.getD []
    let password := r.password.getD []
    if loginNameRe.fullmatch username = false then
      ⟨(s.flash [invalidLogin]).renderPage c.fresh, attempts, none⟩
    else
      let attemptKey := (db.lower username, orElse (r.remoteAddr.getD []) "unknown".toList)
      let (locked, attempts) := isLoginLocked c.now attemptKey attempts
      if locked then
        ⟨(s.flash ["Too many failed attempts. Please wait 10 minutes and try again.".toList]).renderPage
          c.fresh, attempts, none⟩
      else if username = env.nasUser ∧ password = env.nasPassword then
        ⟨{ s with userId := some username, isAdmin := some true },
          clearLoginFailures attemptKey attempts, some (username, password)⟩
      else
        let (isValidUser, messages) := systemCheck db env password c.sshpass
        if isValidUser then
          ⟨{ s.flash messages with userId := some username, isAdmin := some false },
            clearLoginFailures attemptKey attempts, some (username, password)⟩
        else
          ⟨(s.flash (messages ++ [invalidLogin])).renderPage c.fresh,
            recordLoginFailure c.later attemptKey attempts, none⟩

def logout (s : Session) : Session := { s with userId := none }

/-- What every other view does to the session: it flashes messages and then
renders a page or redirects. -/
def otherView (c : Circumstances) (s : Session) : Session :=
  if c.renders then (s.flash c.messages).renderPage c.fresh else s.flash c.messages

structure Served where
  endpoint : Endpoint
  /-- Whether the body of the view ran. -/
  ran : Bool
  succeeded : Option (Str × Str)
  deriving DecidableEq, Repr

def body (db : CharData) (env : Env) (attempts : Attempts) (s : Session) (r : Request)
    (c : Circumstances) : Attempts × Session × Served :=
  match r.endpoint with
  | .login =>
      let result := login db env r c attempts s
      (result.attempts, result.session, ⟨.login, true, result.succeeded⟩)
  | .logout => (attempts, logout s, ⟨.logout, true, none⟩)
  | other => (attempts, otherView c s, ⟨other, true, none⟩)

def refused (attempts : Attempts) (s : Session) (r : Request) (messages : List Str) :
    Attempts × Session × Served :=
  (attempts, s.flash messages, ⟨r.endpoint, false, none⟩)

def serve (db : CharData) (env : Env) (attempts : Attempts) (s : Session)
    (request : Request × Circumstances) : Attempts × Session × Served :=
  let (r, c) := request
  match csrfProtect s r with
  | .forbidden | .raised => refused attempts s r []
  | .redirect => refused attempts s r [csrfFailed]
  | .pass =>
      if r.endpoint.allows r.method = false then refused attempts s r []
      else
        match r.endpoint.guard with
        | .open => body db env attempts s r c
        | .loginRequired =>
            if s.isAuthenticated then body db env attempts s r c
            else refused attempts s r [loginMissing]
        | .adminRequired =>
            if s.passesAdmin then body db env attempts s r c
            else refused attempts s r [adminMissing]

def webServer (db : CharData) (env : Env) :
    Replay.Server Attempts Session Served (Request × Circumstances) :=
  ⟨Session.empty, serve db env⟩

def lastLogin (history : List Served) : Option (Str × Str) :=
  history.foldl (fun last served => served.succeeded <|> last) none

/-- A session that names a user with the flag set belongs to a cookie whose last
successful login gave the administrator's credentials. -/
def Elevated (env : Env) (token : Token Session Served) : Prop :=
  token.session.userId.isSome = true → token.session.isAdmin = some true →
    lastLogin token.history = some (env.nasUser, env.nasPassword)

theorem lastLogin_append (history : List Served) (served : Served) :
    lastLogin (history ++ [served]) = (served.succeeded <|> lastLogin history) := by
  simp only [lastLogin, List.foldl_append, List.foldl_cons, List.foldl_nil]

theorem passesAdmin_iff (s : Session) :
    s.passesAdmin = true ↔ s.userId.isSome = true ∧ s.isAdmin = some true := by
  rcases s with ⟨userId, isAdmin, csrfToken, flashes⟩
  cases userId <;> cases isAdmin <;> simp [Session.passesAdmin, Session.loadUser]

def SameLogin (s s' : Session) : Prop := s'.userId = s.userId ∧ s'.isAdmin = s.isAdmin

/-- What one served request can do to the two fields that carry the privilege. -/
inductive Effect (env : Env) (s : Session) : Session → Option (Str × Str) → Prop where
  | kept {s' : Session} : SameLogin s s' → Effect env s s' none
  | left {s' : Session} : s'.userId = none → Effect env s s' none
  | admin {s' : Session} : Effect env s s' (some (env.nasUser, env.nasPassword))
  | standard {s' : Session} {credentials : Str × Str} :
      s'.isAdmin = some false → Effect env s s' (some credentials)

theorem login_effect (db : CharData) (env : Env) (r : Request) (c : Circumstances)
    (attempts : Attempts) (s : Session) :
    Effect env s (login db env r c attempts s).session
      (login db env r c attempts s).succeeded := by
  unfold login
  split
  · exact .kept ⟨rfl, rfl⟩
  split
  · exact .kept ⟨rfl, rfl⟩
  dsimp only
  split
  · exact .kept ⟨rfl, rfl⟩
  split
  · exact .kept ⟨rfl, rfl⟩
  split
  next same =>
    rw [same.1, same.2]
    exact .admin
  next =>
    split
    · exact .standard rfl
    · exact .kept ⟨rfl, rfl⟩

theorem otherView_effect (env : Env) (c : Circumstances) (s : Session) :
    Effect env s (otherView c s) none := by
  unfold otherView
  split
  · exact .kept ⟨rfl, rfl⟩
  · exact .kept ⟨rfl, rfl⟩

theorem body_effect (db : CharData) (env : Env) (attempts : Attempts) (s : Session)
    (r : Request) (c : Circumstances) :
    Effect env s (body db env attempts s r c).2.1 (body db env attempts s r c).2.2.succeeded := by
  unfold body
  split
  · exact login_effect db env r c attempts s
  · exact .left rfl
  · exact otherView_effect env c s

theorem refused_effect (env : Env) (attempts : Attempts) (s : Session) (r : Request)
    (messages : List Str) :
    Effect env s (refused attempts s r messages).2.1
      (refused attempts s r messages).2.2.succeeded :=
  .kept ⟨rfl, rfl⟩

theorem serve_cases (db : CharData) (env : Env) (attempts : Attempts) (s : Session)
    (r : Request) (c : Circumstances) :
    (∃ messages, serve db env attempts s (r, c) = refused attempts s r messages) ∨
      (serve db env attempts s (r, c) = body db env attempts s r c ∧
        (r.endpoint.guard = .adminRequired → s.passesAdmin = true)) := by
  unfold serve
  dsimp only
  split
  · exact .inl ⟨_, rfl⟩
  · exact .inl ⟨_, rfl⟩
  · exact .inl ⟨_, rfl⟩
  · split
    · exact .inl ⟨_, rfl⟩
    split
    next unguarded => exact .inr ⟨rfl, fun admin => by simp [unguarded] at admin⟩
    next standard =>
      split
      · exact .inr ⟨rfl, fun admin => by simp [standard] at admin⟩
      · exact .inl ⟨_, rfl⟩
    next =>
      split
      next passes => exact .inr ⟨rfl, fun _ => passes⟩
      next => exact .inl ⟨_, rfl⟩

theorem serve_effect (db : CharData) (env : Env) (attempts : Attempts) (s : Session)
    (request : Request × Circumstances) :
    Effect env s (serve db env attempts s request).2.1
      (serve db env attempts s request).2.2.succeeded := by
  rcases serve_cases db env attempts s request.1 request.2 with ⟨messages, same⟩ | ⟨same, -⟩
  · rw [same]
    exact refused_effect env attempts s request.1 messages
  · rw [same]
    exact body_effect db env attempts s request.1 request.2

theorem elevated_of_effect {env : Env} {token : Token Session Served} {s' : Session}
    {served : Served} (effect : Effect env token.session s' served.succeeded)
    (elevated : Elevated env token) :
    Elevated env ⟨s', token.history ++ [served]⟩ := by
  intro user flag
  rw [lastLogin_append]
  generalize served.succeeded = succeeded at effect
  cases effect with
  | kept same =>
      rw [same.1] at user
      rw [same.2] at flag
      simpa using elevated user flag
  | left gone => simp [gone] at user
  | admin => rfl
  | standard plain => simp [plain] at flag

theorem elevated_present (db : CharData) (env : Env) (attempts : Attempts)
    (requests : List (Option Nat × Request × Circumstances)) (client : Option Nat) :
    Elevated env
      (Replay.present (webServer db env)
        (Replay.run (webServer db env) ⟨attempts, []⟩ requests) client) :=
  Replay.run_present (fun user => by simp [webServer, Session.empty] at user)
    (fun shared token request elevated =>
      elevated_of_effect (serve_effect db env shared token.session request) elevated)
    _ (fun _ member => by simp at member) requests client

/-- After any requests of any clients, the body of a view for administrators runs
only for a cookie whose last successful login gave the administrator's credentials. -/
theorem admin_view_needs_admin_login (db : CharData) (env : Env) (attempts : Attempts)
    (requests : List (Option Nat × Request × Circumstances)) (client : Option Nat)
    (r : Request) (c : Circumstances) (guarded : r.endpoint.guard = .adminRequired) :
    let w := Replay.run (webServer db env) ⟨attempts, []⟩ requests
    let token := Replay.present (webServer db env) w client
    (serve db env w.shared token.session (r, c)).2.2.ran = true →
      lastLogin token.history = some (env.nasUser, env.nasPassword) := by
  intro w token ran
  have elevated : Elevated env token := elevated_present db env attempts requests client
  rcases serve_cases db env w.shared token.session r c with ⟨messages, same⟩ | ⟨-, passes⟩
  · rw [same] at ran
    simp [refused] at ran
  · obtain ⟨user, flag⟩ := (passesAdmin_iff token.session).mp (passes guarded)
    exact elevated user flag

def exampleEnv : Env := ⟨true, "dev".toList, "secret".toList⟩

def quiet : Circumstances := ⟨0, 0, .completed 5 [] [], "token".toList, [], true⟩

def loginRequests (client : Option Nat) (issued : Nat) (username password : Str) :
    List (Option Nat × Request × Circumstances) :=
  [(client, ⟨.login, .get, none, false, none, none, none, none⟩, quiet),
    (some issued, ⟨.login, .post, some "token".toList, false, none, none, some username,
      some password⟩, quiet)]

theorem admin_view_needs_admin_login_users :
    let w := Replay.run (webServer .ascii exampleEnv) ⟨fun _ => [], []⟩
      (loginRequests none 0 "dev".toList "secret".toList)
    let token := Replay.present (webServer .ascii exampleEnv) w (some 1)
    (serve .ascii exampleEnv w.shared token.session
        (⟨.users, .get, none, false, none, none, none, none⟩, quiet)).2.2.ran = true ∧
      lastLogin token.history = some ("dev".toList, "secret".toList) := by
  intro w token
  have ran : (serve .ascii exampleEnv w.shared token.session
      (⟨.users, .get, none, false, none, none, none, none⟩, quiet)).2.2.ran = true := by
    decide +kernel
  exact ⟨ran, admin_view_needs_admin_login .ascii exampleEnv _ _ (some 1) _ quiet rfl ran⟩

end SmolNas.App
