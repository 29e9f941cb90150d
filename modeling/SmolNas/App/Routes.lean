import SmolNas.Py.Str

/-! The endpoints of the web application, who may reach them, and replies. -/

namespace SmolNas.App

open Py

inductive Endpoint where
  | login | logout | signup
  | users | addUser | deleteUser
  | storage | mountDisk | unmountDisk | formatDisk
  | shares | addShare | deleteShare
  | settings | updateSambaGlobal
  | health | apiHealthData | serviceAction | systemPower
  | index
  | files | uploadFile | deleteFile | downloadFile | playVideo | streamFile
  | backup | runBackup
  | apiStatus | apiShares | apiUsers
  | assistant | generateCommand | executeCommand
  deriving DecidableEq, Repr

inductive Guard where
  | open
  | loginRequired
  | adminRequired
  deriving DecidableEq, Repr

def Endpoint.guard : Endpoint → Guard
  | .login | .signup => .open
  | .logout | .index | .files | .uploadFile | .downloadFile | .playVideo | .streamFile =>
      .loginRequired
  | _ => .adminRequired

inductive Method where
  | get
  | post
  deriving DecidableEq, Repr

def Endpoint.allows : Endpoint → Method → Bool
  | .login, _ | .signup, _ => true
  | .addUser, m | .deleteUser, m | .mountDisk, m | .unmountDisk, m | .formatDisk, m
  | .addShare, m | .deleteShare, m | .updateSambaGlobal, m | .serviceAction, m | .systemPower, m
  | .uploadFile, m | .deleteFile, m | .runBackup, m | .generateCommand, m
  | .executeCommand, m => m == .post
  | _, m => m == .get

/-- Whether the path of the endpoint starts with `/api/`. -/
def Endpoint.isApi : Endpoint → Bool
  | .apiHealthData | .apiStatus | .apiShares | .apiUsers | .generateCommand | .executeCommand => true
  | _ => false

inductive Page where
  | redirect (target : Endpoint)
  | render (template : Endpoint)
  deriving DecidableEq, Repr

structure Reply where
  flashes : List Str
  page : Page
  deriving DecidableEq, Repr

end SmolNas.App
