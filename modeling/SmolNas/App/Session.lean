import SmolNas.App.Routes

/-! The session of a client, the user it names, and `csrf_protect`. -/

namespace SmolNas.App

open Py

/-- The content of the session cookie: the id that the login library keeps, the
flag that `login` writes, the CSRF token and the messages not yet shown. -/
structure Session where
  userId : Option Str
  isAdmin : Option Bool
  csrfToken : Option Str
  flashes : List Str
  deriving DecidableEq, Repr

structure User where
  id : Str
  isAdmin : Bool
  deriving DecidableEq, Repr

structure Request where
  endpoint : Endpoint
  method : Method
  formToken : Option Str
  isJson : Bool
  headerToken : Option Str
  remoteAddr : Option Str
  username : Option Str
  password : Option Str
  deriving DecidableEq, Repr

namespace Session

def empty : Session := ⟨none, none, none, []⟩

/-- `load_user` of the id in the session: the flag comes from the session too. -/
def loadUser (s : Session) : Option User :=
  s.userId.map fun id => ⟨id, s.isAdmin.getD false⟩

def isAuthenticated (s : Session) : Bool := s.loadUser.isSome

def passesAdmin (s : Session) : Bool := s.loadUser.any (·.isAdmin)

def flash (messages : List Str) (s : Session) : Session :=
  { s with flashes := s.flashes ++ messages }

/-- Rendering a page shows the messages and makes a CSRF token if there is none. -/
def renderPage (fresh : Str) (s : Session) : Session :=
  { s with
    csrfToken := if s.csrfToken.getD [] = [] then some fresh else s.csrfToken
    flashes := [] }

end Session

inductive CsrfAnswer where
  | pass
  | forbidden
  | redirect
  | raised
  deriving DecidableEq, Repr

/-- `secrets.compare_digest` of two strings, which must be ASCII. -/
def compareDigest (a b : Str) : Option Bool :=
  if (a ++ b).all (fun c => c.toNat < 128) then some (a == b) else none

def requestToken (r : Request) : Str :=
  let form := r.formToken.getD []
  if form = [] ∧ r.isJson = true then r.headerToken.getD [] else form

def csrfProtect (s : Session) (r : Request) : CsrfAnswer :=
  if r.method = .get then .pass
  else
    let sessionToken := s.csrfToken.getD []
    let reject := if r.endpoint.isApi then CsrfAnswer.forbidden else .redirect
    if sessionToken = [] ∨ requestToken r = [] then reject
    else
      match compareDigest sessionToken (requestToken r) with
      | none => .raised
      | some false => reject
      | some true => .pass

end SmolNas.App
