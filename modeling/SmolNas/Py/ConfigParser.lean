import SmolNas.Py.TextFile

/-! `configparser.ConfigParser(strict=False)`: reading a file, and values with
basic interpolation. -/

namespace SmolNas.Py.ConfigParser

/-- Options in the order of their first mention, each with the lines of its value. -/
abbrev Options := List (Str × List Str)

def setOption (options : Options) (name : Str) (value : List Str) : Options :=
  if options.any (·.1 == name) then
    options.map fun o => if o.1 = name then (name, value) else o
  else options ++ [(name, value)]

def extendOption (name line : Str) (options : Options) : Options :=
  options.map fun o => if o.1 = name then (name, o.2 ++ [line]) else o

def defaultSection : Str := "DEFAULT".toList

/-- The state of `_read` between two lines. -/
structure State where
  sections : List (Str × Options)
  defaults : Options
  /-- The name of the current section. -/
  cursect : Option Str
  optname : Option Str
  indentLevel : Nat
  /-- Whether a line was bogus; the error is raised at the end of the file. -/
  failed : Bool
  deriving DecidableEq, Repr

namespace State

def empty : State := ⟨[], [], none, none, 0, false⟩

/-- Changes the options of the current section. -/
def modify (f : Options → Options) (st : State) : State :=
  match st.cursect with
  | none => st
  | some name =>
      if name = defaultSection then { st with defaults := f st.defaults }
      else { st with sections := st.sections.map fun s => if s.1 = name then (s.1, f s.2) else s }

/-- The option that a continuation line would extend. -/
def openOption (st : State) : Option Str :=
  if st.cursect.isSome then st.optname.filter (· != []) else none

def extend (line : Str) (st : State) : State :=
  match st.openOption with
  | none => st
  | some name => st.modify (extendOption name line)

def openSection (name : Str) (indent : Nat) (st : State) : State :=
  { st with
    sections :=
      if st.sections.any (·.1 == name) || name == defaultSection then st.sections
      else st.sections ++ [(name, [])]
    cursect := some name
    optname := none
    indentLevel := indent }

end State

/-- `\[(?P<header>.+)\]` at the start of the text. -/
def sectionHeader : Str → Option Str
  | '[' :: rest =>
      let header := (rest.reverse.dropWhile (· != ']')).tail.reverse
      if header = [] then none else some header
  | _ => none

def isDelimiter (c : Char) : Bool := c == '=' || c == ':'

/-- `(?P<option>.*?)\s*(?:(?P<vi>=|:)\s*(?P<value>.*))$` -/
def optionParts (text : Str) : Option (Str × Str) :=
  match text.dropWhile (!isDelimiter ·) with
  | [] => none
  | _ :: value => some (rstrip (text.takeWhile (!isDelimiter ·)), strip value)

def readOption (db : CharData) (indent : Nat) (text : Str) (st : State) : State :=
  let st := { st with indentLevel := indent }
  match optionParts text with
  | none => { st with failed := true }
  | some (name, value) =>
      { st.modify (fun options => setOption options (db.lower name) [value]) with
        optname := some (db.lower name)
        failed := st.failed || name == [] }

def isComment (line : Str) : Bool :=
  startswith (strip line) ['#'] || startswith (strip line) [';']

def indentOf (line : Str) : Nat := (line.takeWhile isSpace).length

/-- A line that continues the value of the option above it. -/
def continues (st : State) (line : Str) : Bool :=
  st.openOption.isSome && st.indentLevel < indentOf line

inductive LineKind where
  | comment
  | blank
  | continuation
  | header (name : Str)
  | option
  | missingHeader
  deriving DecidableEq, Repr

def lineKind (st : State) (line : Str) : LineKind :=
  if isComment line then .comment
  else if strip line = [] then .blank
  else if continues st line then .continuation
  else
    match sectionHeader (strip line) with
    | some name => .header name
    | none => if st.cursect = none then .missingHeader else .option

/-- One line; there is no result where `MissingSectionHeaderError` is raised. -/
def readLine (db : CharData) (st : State) (line : Str) : Option State :=
  match lineKind st line with
  | .comment => some st
  | .blank => some (st.extend [])
  | .continuation => some (st.extend (strip line))
  | .header name => some (st.openSection name (indentOf line))
  | .option => some (readOption db (indentOf line) (strip line) st)
  | .missingHeader => none

def readLines (db : CharData) : State → List Str → Option State
  | st, [] => some st
  | st, line :: lines => (readLine db st line).bind fun st => readLines db st lines

/-- `config.read(path)` of a file with this content. -/
def read (db : CharData) (content : Str) : Option State :=
  (readLines db .empty (readlines content)).filter (!·.failed)

def joined (lines : List Str) : Str := rstrip (join ['\n'] lines)

/-- The value of an option of a section, or of the defaults. -/
def rawValue (st : State) (section' option : Str) : Option Str :=
  ((((st.sections.lookup section').getD []).lookup option).or (st.defaults.lookup option)).map joined

/-- `%\(([^)]+)\)s` after its first two characters: the key, and the rest. -/
def keyOf (rest : Str) : Option (Str × Str) :=
  let key := rest.takeWhile (· != ')')
  let after := rest.drop key.length
  if key ≠ [] ∧ startswith after [')', 's'] = true then some (key, after.drop 2) else none

/-- The loop of `_interpolate_some`: a percent sign is doubled or names an option. -/
def interpolateLoop (value : Str → Option Str) : Nat → Str → Option Str
  | 0, _ => none
  | _ + 1, [] => some []
  | fuel + 1, '%' :: '%' :: rest => (interpolateLoop value fuel rest).map ('%' :: ·)
  | fuel + 1, '%' :: '(' :: rest =>
      (keyOf rest).bind fun (key, rest) =>
        (value key).bind fun v => (interpolateLoop value fuel rest).map (v ++ ·)
  | _ + 1, '%' :: _ => none
  | fuel + 1, c :: rest => (interpolateLoop value fuel rest).map (c :: ·)

/-- `_interpolate_some` with this many levels left; there is no result where an
interpolation error is raised. -/
def interpolate (db : CharData) (map : Str → Option Str) : Nat → Str → Option Str
  | 0, _ => none
  | depth + 1, rest =>
      interpolateLoop
        (fun key => (map (db.lower key)).bind fun v =>
          if v.contains '%' then interpolate db map depth v else some v)
        (rest.length + 1) rest

def maxInterpolationDepth : Nat := 10

/-- `config.get(section, option, fallback=fallback)` -/
def State.get (db : CharData) (st : State) (section' option fallback : Str) : Option Str :=
  match rawValue st section' (db.lower option) with
  | none => some fallback
  | some value => interpolate db (rawValue st section') maxInterpolationDepth value

end SmolNas.Py.ConfigParser
