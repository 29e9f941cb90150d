import SmolNas.App.Sections
import SmolNas.Py.ConfigParser

/-! The settings page and back: `get_samba_global` fills the form, a browser submits it
as it stands, and `update_samba_global` writes the values into the file. -/

namespace SmolNas.App

open Py

section Page

def globalSection : Str := "global".toList

def optionNames (st : ConfigParser.State) : List Str :=
  let own := ((st.sections.lookup globalSection).getD []).map Prod.fst
  own ++ (st.defaults.map Prod.fst).filter (!own.contains ·)

/-- The loop over `cp['global'].items()`; an error ends it. -/
def globalItems (db : CharData) (st : ConfigParser.State) : List Str → List (Str × Str)
  | [] => []
  | name :: names =>
      let value := (ConfigParser.rawValue st globalSection (db.lower name)).bind
        (ConfigParser.interpolate db (ConfigParser.rawValue st globalSection)
          ConfigParser.maxInterpolationDepth)
      match value with
      | none => []
      | some value => (name, value) :: globalItems db st names

def getSambaGlobal (db : CharData) (conf : Str) : List (Str × Str) :=
  match ConfigParser.read db conf with
  | none => []
  | some st =>
      if st.sections.any (·.1 == globalSection) then globalItems db st (optionNames st) else []

/-- The value of a text input: line breaks are stripped, and NUL is replaced. -/
def inputText (value : Str) : Str :=
  (value.filter (!isNewline ·)).map fun c => if c = '\x00' then '\uFFFD' else c

/-- The option of a select that the value selects, or else the first one. -/
def selected (options : List Str) (value : Option Str) : Str :=
  (options.find? (some · == value)).getD (options.headD [])

def workgroupText (config : List (Str × Str)) : Str :=
  inputText ((config.lookup "workgroup".toList).getD "WORKGROUP".toList)

def netbiosText (config : List (Str × Str)) : Str :=
  inputText ((config.lookup "netbios name".toList).getD "RASPBERRYPI".toList)

/-- The form of `settings.html` as a browser submits it without edits; it refuses when
the required workgroup is empty. -/
def uneditedForm (config : List (Str × Str)) : Option GlobalForm :=
  if workgroupText config = [] then none
  else some
    { workgroup := some (workgroupText config)
      netbiosName := some (netbiosText config)
      minProtocol := some (selected ["SMB2".toList, "NT1".toList]
        (config.lookup "server min protocol".toList))
      maxProtocol := some (selected ["SMB3".toList, "SMB2".toList]
        (config.lookup "server max protocol".toList))
      mapToGuest :=
        if config.lookup "map to guest".toList = some "Bad User".toList then
          some "Bad User".toList
        else none }

def resubmitted (db : CharData) (env : Env) (conf : Str) : Str :=
  match uneditedForm (getSambaGlobal db conf) with
  | none => conf
  | some form => (updateSambaGlobal env form conf).1

end Page

section Values

def assigns (db : CharData) (key text : Str) : Bool :=
  text.contains '=' && db.lower (settingKey text) == key

def valueText (text : Str) : Str := strip ((text.dropWhile (· != '=')).drop 1)

def globalTexts (conf : Str) : List Str :=
  ((entries 0 false (texts conf)).filter Entry.inGlobal).map Entry.text

/-- The line that decides the value of a key, whatever the case of its letters. -/
def globalLine (db : CharData) (key conf : Str) : Option Str :=
  ((globalTexts conf).filter (assigns db key)).getLast?

def globalValue (db : CharData) (key conf : Str) : Option Str :=
  (globalLine db key conf).map valueText

/-- The value of a key, if the line that decides it is written as the update looks for
it, with the key in lower case. -/
def rewrittenValue (db : CharData) (key conf : Str) : Option Str :=
  ((globalLine db key conf).filter (settingKey · == key)).map valueText

def SameText (db : CharData) (a b : Str) : Prop := db.lower a = db.lower b

/-- What the form shows for each value that is going to be rewritten: the text that was
read from the file, and an option that says the same as the file. -/
structure FormShows (db : CharData) (config : List (Str × Str)) (conf : Str) : Prop where
  workgroup : ∀ v, rewrittenValue db "workgroup".toList conf = some v →
    SameText db (strip (workgroupText config)) v
  netbiosName : ∀ v, rewrittenValue db "netbios name".toList conf = some v →
    SameText db (strip (netbiosText config)) v
  minProtocol : ∀ v, rewrittenValue db "server min protocol".toList conf = some v →
    if config.lookup "server min protocol".toList = some "NT1".toList then
      SameText db "NT1".toList v
    else SameText db "SMB2".toList v
  maxProtocol : ∀ v, rewrittenValue db "server max protocol".toList conf = some v →
    if config.lookup "server max protocol".toList = some "SMB2".toList then
      SameText db "SMB2".toList v
    else SameText db "SMB3".toList v
  mapToGuest : ∀ v, rewrittenValue db "map to guest".toList conf = some v →
    if config.lookup "map to guest".toList = some "Bad User".toList then
      SameText db "Bad User".toList v
    else SameText db "Never".toList v

end Values

end SmolNas.App
