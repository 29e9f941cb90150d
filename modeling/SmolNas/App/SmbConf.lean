import SmolNas.App.Commands
import SmolNas.App.Routes
import SmolNas.Py.TextFile

/-! The views that change `smb.conf`, as changes of its text. Access to the file
succeeds here. -/

namespace SmolNas.App

open Py Lib

section Text

def isSectionLine (line : Str) : Bool :=
  startswith (strip line) ['['] && endswith (strip line) [']']

/-- `stripped[1:-1]` -/
def sectionText (line : Str) : Str := ((strip line).drop 1).dropLast

def shareLines (name path validUsers readOnly guestOk : Str) : List Str :=
  ["\n".toList,
    "[".toList ++ name ++ "]\n".toList,
    "   path = ".toList ++ path ++ "\n".toList,
    "   valid users = ".toList ++ validUsers ++ "\n".toList,
    "   read only = ".toList ++ readOnly ++ "\n".toList,
    "   guest ok = ".toList ++ guestOk ++ "\n".toList,
    "   create mask = 0664\n".toList,
    "   directory mask = 0775\n".toList]

def addShareToConf (name path validUsers readOnly guestOk conf : Str) : Str :=
  conf ++ (shareLines name path validUsers readOnly guestOk).flatten

/-- The flag `skip` after a line. -/
def skips (shareName : Str) (skip : Bool) (line : Str) : Bool :=
  if isSectionLine line then sectionText line == shareName else skip

def deleteScan (shareName : Str) : Bool → List Str → List Str
  | _, [] => []
  | skip, line :: lines =>
      if skips shareName skip line then deleteScan shareName (skips shareName skip line) lines
      else line :: deleteScan shareName (skips shareName skip line) lines

def deleteShareFromConf (shareName conf : Str) : Str :=
  (deleteScan shareName false (readlines conf)).flatten

def keysToUpdate : List Str :=
  ["workgroup", "netbios name", "server min protocol", "server max protocol",
    "map to guest"].map String.toList

def isGlobalLine (line : Str) : Bool := startswith (strip line) "[global]".toList

/-- `line.split('=')[0].strip()` -/
def settingKey (line : Str) : Str := strip (line.takeWhile (· != '='))

/-- The flag `in_global` after a line. -/
def entersGlobal (inGlobal : Bool) (line : Str) : Bool :=
  if isGlobalLine line then true else if isSectionLine line then false else inGlobal

def settingLine (key value : Str) : Str :=
  "   ".toList ++ key ++ " = ".toList ++ value ++ "\n".toList

def replacement (newConfig : List (Str × Str)) (inGlobal : Bool) (line : Str) : Option Str :=
  if isGlobalLine line then none
  else if inGlobal && line.contains '=' && !startswith line [';'] then
    if keysToUpdate.contains (settingKey line) then
      (newConfig.lookup (settingKey line)).map (settingLine (settingKey line))
    else none
  else none

def updateScan (newConfig : List (Str × Str)) : Bool → List Str → List Str
  | _, [] => []
  | inGlobal, line :: lines =>
      (replacement newConfig (entersGlobal inGlobal line) line).getD line ::
        updateScan newConfig (entersGlobal inGlobal line) lines

def updateSambaGlobalConf (newConfig : List (Str × Str)) (conf : Str) : Str :=
  (updateScan newConfig false (readlines conf)).flatten

end Text

section Views

def reloadSmbd : List Str := ["sudo", "systemctl", "reload", "smbd"].map String.toList

def reloadThen (env : Env) (reply : Reply) : Proc Reply :=
  (runSudoCommand env reloadSmbd).bind fun _ => .ret reply

structure ShareForm where
  name : Option Str
  path : Option Str
  validUsers : Option Str
  readOnly : Option Str
  guestOk : Option Str
  deriving DecidableEq, Repr

/-- `'yes' if value else 'no'` -/
def yesNo (value : Option Str) : Str :=
  if value.getD [] = [] then "no".toList else "yes".toList

def reservedNames : List Str := ["global".toList, "printers".toList, "print$".toList]

def allFieldsRequired : Str := "All fields required".toList

def invalidShareName : Str := "Invalid share name.".toList

def addShare (db : CharData) (env : Env) (form : ShareForm) (conf : Str) : Str × Proc Reply :=
  let name := form.name.getD []
  let path := form.path.getD []
  let users := form.validUsers.getD []
  if name = [] ∨ path = [] ∨ users = [] then
    (conf, .ret ⟨[allFieldsRequired], .redirect .shares⟩)
  else if reservedNames.contains (db.lower name) then
    (conf, .ret ⟨[invalidShareName], .redirect .shares⟩)
  else
    (addShareToConf name path users (yesNo form.readOnly) (yesNo form.guestOk) conf,
      reloadThen env ⟨["Share '".toList ++ name ++ "' created.".toList], .redirect .shares⟩)

def deleteShare (env : Env) (name : Option Str) (conf : Str) : Str × Proc Reply :=
  let name := name.getD []
  if name = [] then (conf, .ret ⟨[], .redirect .shares⟩)
  else
    (deleteShareFromConf name conf,
      reloadThen env ⟨["Share '".toList ++ name ++ "' deleted.".toList], .redirect .shares⟩)

structure GlobalForm where
  workgroup : Option Str
  netbiosName : Option Str
  minProtocol : Option Str
  maxProtocol : Option Str
  mapToGuest : Option Str
  deriving DecidableEq, Repr

def GlobalForm.newConf (form : GlobalForm) : List (Str × Str) :=
  [("workgroup".toList, form.workgroup.getD "WORKGROUP".toList),
    ("netbios name".toList, form.netbiosName.getD "RASPBERRYPI".toList),
    ("server min protocol".toList, form.minProtocol.getD "SMB2".toList),
    ("server max protocol".toList, form.maxProtocol.getD "SMB3".toList),
    ("map to guest".toList,
      if form.mapToGuest.getD [] = [] then "Never".toList else "Bad User".toList)]

def updateSambaGlobal (env : Env) (form : GlobalForm) (conf : Str) : Str × Proc Reply :=
  (updateSambaGlobalConf form.newConf conf,
    reloadThen env ⟨["Global settings updated and Samba reloaded.".toList], .redirect .settings⟩)

end Views

end SmolNas.App
