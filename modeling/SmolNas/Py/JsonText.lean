import SmolNas.Py.Str

/-! `json.loads`: the values that it returns and the texts that it refuses. -/

namespace SmolNas.Py.Json

/-- A `str` by its code points. An escape can name a lone surrogate, which is no `Char`. -/
abbrev Points := List Nat

def points (s : Str) : Points := s.map Char.toNat

inductive Value where
  | null
  | bool (b : Bool)
  | number (text : Str)
  | string (s : Points)
  | array (items : List Value)
  | object (pairs : List (Points × Value))

/-- What the interpreter sets a limit to: the containers that may be nested in the outermost
one before `RecursionError`, and the digits of an integer before `ValueError`. -/
structure Limits where
  depth : Nat
  digits : Option Nat

def Limits.usual : Limits := ⟨900, some 4300⟩

section Scan

def isBlank (c : Char) : Bool := c == ' ' || c == '\t' || c == '\n' || c == '\r'

def skip (s : Str) : Str := s.dropWhile isBlank

def escapes : List (Char × Nat) :=
  [('"', 0x22), ('\\', 0x5c), ('/', 0x2f), ('b', 8), ('f', 12), ('n', 10), ('r', 13), ('t', 9)]

def hexValue? (c : Char) : Option Nat :=
  let n := c.toNat
  if 48 ≤ n ∧ n ≤ 57 then some (n - 48)
  else if 97 ≤ n ∧ n ≤ 102 then some (n - 87)
  else if 65 ≤ n ∧ n ≤ 70 then some (n - 55)
  else none

def hexValues (s : Str) : Option Nat := do
  let digits ← s.mapM hexValue?
  return digits.foldl (fun n d => n * 16 + d) 0

/-- The characters up to the closing quote, each escape as the code unit that it names, and
what follows the quote. Control characters are refused. -/
def scanUnits : Str → Option (List Nat × Str)
  | [] => none
  | '"' :: s => some ([], s)
  | '\\' :: 'u' :: a :: b :: c :: d :: s => do
      let n ← hexValues [a, b, c, d]
      let (ns, rest) ← scanUnits s
      return (n :: ns, rest)
  | '\\' :: c :: s => do
      let n ← escapes.lookup c
      let (ns, rest) ← scanUnits s
      return (n :: ns, rest)
  | c :: s =>
      if c.toNat < 32 then none
      else do
        let (ns, rest) ← scanUnits s
        return (c.toNat :: ns, rest)

def joinSurrogates : List Nat → Points
  | [] => []
  | [n] => [n]
  | n :: m :: ns =>
      if 0xd800 ≤ n ∧ n < 0xdc00 ∧ 0xdc00 ≤ m ∧ m < 0xe000 then
        (0x10000 + (n - 0xd800) * 0x400 + (m - 0xdc00)) :: joinSurrogates ns
      else n :: joinSurrogates (m :: ns)

def scanString (s : Str) : Option (Points × Str) := do
  let (ns, rest) ← scanUnits s
  return (joinSurrogates ns, rest)

def fraction : Str → Str × Str
  | '.' :: s =>
      if s.head?.any Char.isDigit then ('.' :: s.takeWhile Char.isDigit, s.dropWhile Char.isDigit)
      else ([], '.' :: s)
  | s => ([], s)

def sign : Str → Str × Str
  | '-' :: s => (['-'], s)
  | '+' :: s => (['+'], s)
  | s => ([], s)

def exponent : Str → Str × Str
  | [] => ([], [])
  | c :: s =>
      let (mark, digits) := sign s
      if (c == 'e' || c == 'E') && digits.head?.any Char.isDigit then
        (c :: mark ++ digits.takeWhile Char.isDigit, digits.dropWhile Char.isDigit)
      else ([], c :: s)

/-- `0` or digits that do not start with it. -/
def integer : Str → Option (Str × Str)
  | '0' :: s => some (['0'], s)
  | c :: s =>
      if c.isDigit then some (c :: s.takeWhile Char.isDigit, s.dropWhile Char.isDigit) else none
  | [] => none

def scanNumber (limits : Limits) (s : Str) : Option (Value × Str) := do
  let (minus, s) := if startswith s ['-'] then (['-'], s.drop 1) else ([], s)
  let (whole, s) ← integer s
  let (part, s) := fraction s
  let (power, s) := exponent s
  if part = [] ∧ power = [] ∧ limits.digits.any (· < whole.length) then none
  else some (.number (minus ++ whole ++ part ++ power), s)

def constants : List (Str × Value) :=
  [("null".toList, .null), ("true".toList, .bool true), ("false".toList, .bool false),
    ("NaN".toList, .number "NaN".toList), ("Infinity".toList, .number "Infinity".toList),
    ("-Infinity".toList, .number "-Infinity".toList)]

def scanConstant (s : Str) : Option (Value × Str) :=
  (constants.find? (startswith s ·.1)).map fun found => (found.2, s.drop found.1.length)

def scanItems (value : Str → Option (Value × Str)) : Nat → Str → Option (List Value × Str)
  | 0, _ => none
  | fuel + 1, s => do
      let (item, s) ← value s
      match skip s with
      | ']' :: s => some ([item], s)
      | ',' :: s =>
          let (items, s) ← scanItems value fuel (skip s)
          return (item :: items, s)
      | _ => none

def scanArray (value : Str → Option (Value × Str)) (s : Str) : Option (Value × Str) :=
  match skip s with
  | ']' :: s => some (.array [], s)
  | s => (scanItems value s.length s).map fun (items, s) => (.array items, s)

def scanPairs (value : Str → Option (Value × Str)) : Nat → Str → Option (List (Points × Value) × Str)
  | fuel + 1, '"' :: s => do
      let (key, s) ← scanString s
      match skip s with
      | ':' :: s =>
          let (item, s) ← value (skip s)
          match skip s with
          | '\x7d' :: s => some ([(key, item)], s)
          | ',' :: s =>
              let (pairs, s) ← scanPairs value fuel (skip s)
              return ((key, item) :: pairs, s)
          | _ => none
      | _ => none
  | _, _ => none

/-- `d[key] = item` -/
def assign (pairs : List (Points × Value)) (pair : Points × Value) : List (Points × Value) :=
  if pairs.any (·.1 == pair.1) then pairs.map fun old => if old.1 == pair.1 then pair else old
  else pairs ++ [pair]

/-- `dict(pairs)`: of a key that stands twice the last value stays. -/
def dict (pairs : List (Points × Value)) : List (Points × Value) := pairs.foldl assign []

def scanObject (value : Str → Option (Value × Str)) (s : Str) : Option (Value × Str) :=
  match skip s with
  | '\x7d' :: s => some (.object [], s)
  | s => (scanPairs value s.length s).map fun (pairs, s) => (.object (dict pairs), s)

/-- One value; `inner` reads those that are nested in it. -/
def scanWith (limits : Limits) (inner : Str → Option (Value × Str)) : Str → Option (Value × Str)
  | '"' :: s => (scanString s).map fun (text, s) => (.string text, s)
  | '\x7b' :: s => scanObject inner s
  | '[' :: s => scanArray inner s
  | s => (scanConstant s).or (scanNumber limits s)

def scanFlat (limits : Limits) : Str → Option (Value × Str)
  | '\x7b' :: _ => none
  | '[' :: _ => none
  | s => scanWith limits (fun _ => none) s

def scanOnce (limits : Limits) : Nat → Str → Option (Value × Str)
  | 0 => scanWith limits (scanFlat limits)
  | depth + 1 => scanWith limits (scanOnce limits depth)

/-- `json.loads(s)`; no value stands for an exception. -/
def loads (limits : Limits) (s : Str) : Option Value :=
  if s.head? = some '\uFEFF' then none
  else do
    let (value, rest) ← scanOnce limits limits.depth (skip s)
    if skip rest = [] then some value else none

end Scan

namespace Value

/-- `d.get(key)` of a `dict`. -/
def get? (key : Str) : Value → Option Value
  | object pairs => pairs.lookup (points key)
  | _ => none

def isTrue : Value → Bool
  | bool b => b
  | _ => false

def isObject : Value → Bool
  | object _ => true
  | _ => false

/-- `d.setdefault(key, item)`; no value stands for the `AttributeError` of anything else. -/
def setdefault : Value → Str → Value → Option Value
  | object pairs, key, item =>
      if (pairs.lookup (points key)).isSome then some (object pairs)
      else some (object (pairs ++ [(points key, item)]))
  | _, _, _ => none

section Defaults

variable {key other : Str} {item data : Value}

theorem setdefault_isSome : (data.setdefault key item).isSome = data.isObject := by
  cases data with
  | object pairs =>
      rw [setdefault, isObject]
      split <;> rfl
  | _ => rfl

theorem setdefault_isObject {after : Value} (set : data.setdefault key item = some after) :
    after.isObject = true := by
  cases data with
  | object pairs =>
      rw [setdefault] at set
      split at set
      · rw [← Option.some.inj set, isObject]
      · rw [← Option.some.inj set, isObject]
  | _ => cases set

theorem setdefault_own {after : Value} (set : data.setdefault key item = some after) :
    after.get? key = some ((data.get? key).getD item) := by
  cases data with
  | object pairs =>
      rw [setdefault] at set
      split at set
      next present =>
        rw [← Option.some.inj set, get?]
        rcases Option.isSome_iff_exists.mp present with ⟨old, found⟩
        rw [found, Option.getD_some]
      next absent =>
        rw [Option.not_isSome_iff_eq_none] at absent
        rw [← Option.some.inj set, get?, get?, absent, Option.getD_none, List.lookup_append, absent,
          Option.none_or, List.lookup_cons_self]
  | _ => cases set

theorem setdefault_other {after : Value} (differ : points other ≠ points key)
    (set : data.setdefault key item = some after) : after.get? other = data.get? other := by
  cases data with
  | object pairs =>
      rw [setdefault] at set
      split at set
      · rw [← Option.some.inj set]
      · have last : List.lookup (points other) [(points key, item)] = none := by
          rw [List.lookup_cons, beq_eq_false_iff_ne.mpr differ]
          rfl
        rw [← Option.some.inj set, get?, get?, List.lookup_append, last, Option.or_none]
  | _ => cases set

end Defaults

end Value

end SmolNas.Py.Json
