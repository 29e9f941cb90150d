import Mathlib.Data.List.Basic
import Mathlib.Data.List.Infix

/-! The lexical structure of a shell script: quoting, commands, fields, and the places where
a word begins.

Every character carries a mark that says whether it is quoted: by single or
double quotes (the quotes themselves included) or by a backslash. -/

namespace SmolNas.Lib.Shell

inductive Mode where
  | plain
  | single
  | double
  | escape (inDouble : Bool)
  deriving DecidableEq, Repr

/-- The mode after a character, and whether the character is quoted. -/
def Mode.next : Mode → Char → Mode × Bool
  | plain, c =>
      if c = '\'' then (single, true)
      else if c = '"' then (double, true)
      else if c = '\\' then (escape false, true)
      else (plain, false)
  | single, c => (if c = '\'' then plain else single, true)
  | double, c => (if c = '"' then plain else if c = '\\' then escape true else double, true)
  | escape inDouble, _ => (if inDouble then double else plain, true)

abbrev Marked := List (Char × Bool)

def marks : Mode → List Char → Marked
  | _, [] => []
  | mode, c :: s => (c, (mode.next c).2) :: marks (mode.next c).1 s

def text (marked : Marked) : List Char := marked.map Prod.fst

theorem text_marks (mode : Mode) (s : List Char) : text (marks mode s) = s := by
  induction s generalizing mode with
  | nil => rfl
  | cons c s ih => exact congrArg (c :: ·) (ih (mode.next c).1)

theorem text_append (a b : Marked) : text (a ++ b) = text a ++ text b := List.map_append

/-- The characters that stay when the quotes of a text are removed. -/
def Mode.unquoted : Mode → Char → List Char
  | plain, c => if c = '\'' ∨ c = '"' ∨ c = '\\' then [] else [c]
  | single, c => if c = '\'' then [] else [c]
  | double, c => if c = '"' ∨ c = '\\' then [] else [c]
  | escape inDouble, c =>
      if c = '\n' then []
      else if inDouble ∧ c ∉ ['$', Char.ofNat 96, '"', '\\'] then ['\\', c] else [c]

def unquote : Mode → List Char → List Char
  | _, [] => []
  | mode, c :: s => mode.unquoted c ++ unquote (mode.next c).1 s

def isSeparator (c : Char × Bool) : Bool := !c.2 && (c.1 == ';' || c.1 == '&' || c.1 == '|')

def isBlankChar (c : Char) : Bool := c == ' ' || c == '\t' || c == '\n'

def isBlank (c : Char × Bool) : Bool := !c.2 && isBlankChar c.1

/-- The parts of a script between its unquoted `;`, `&` and `|`. Brackets, reserved words and line
breaks are left in them: the program of `(sudo ls)` is no first field of a part. -/
def commands (script : List Char) : List Marked :=
  (marks .plain script).splitOnP isSeparator

/-- The fields of a command between its unquoted blanks. Two blanks in a row have
an empty field between them. -/
def fields (command : Marked) : List Marked := command.splitOnP isBlank

section Words

/-- The characters that end a word where they are not quoted. A backquote opens or closes a
command substitution. -/
def isMetaChar (c : Char) : Bool :=
  isBlankChar c || [';', '&', '|', '(', ')', '<', '>', Char.ofNat 96].contains c

def isMeta (c : Char × Bool) : Bool := !c.2 && isMetaChar c.1

/-- What a simple command is being read: a word, the operator of a redirection, or its target. -/
inductive Stage where
  | word
  | arrow
  | target
  deriving DecidableEq, Repr

def Stage.past : Stage → Stage
  | arrow => target
  | stage => stage

def closeWord (stage : Stage) (word : Marked) (words : List Marked) : List Marked :=
  if word = [] ∨ stage = .target then words else word :: words

/-- The words of the simple command at the start of a text, without its redirections. It ends
at a metacharacter other than a blank, or where a comment begins. -/
def simpleCommand : Stage → Marked → Marked → List Marked
  | stage, word, [] => closeWord stage word []
  | stage, word, c :: rest =>
      if isMeta c = false then
        if word = [] ∧ c = ('#', false) then []
        else simpleCommand stage.past (word ++ [c]) rest
      else if c.1 = ' ' ∨ c.1 = '\t' then
        closeWord stage word (simpleCommand (if word = [] then stage.past else .word) [] rest)
      else if c.1 = '<' ∨ c.1 = '>' then
        -- a number right before the operator is part of it
        if stage = .word ∧ word.all (fun d => !d.2 && d.1.isDigit) = true then
          simpleCommand .arrow [] rest
        else closeWord stage word (simpleCommand .arrow [] rest)
      else if stage = .arrow ∧ (c.1 = '&' ∨ c.1 = '|') then simpleCommand .target [] rest
      else closeWord stage word []

/-- The text of a word when its quotes are removed. -/
def wordOf (word : Marked) : List Char := unquote .plain (text word)

example : (simpleCommand .word [] (marks .plain "rm 2>&1 \"-r\"f >>x / # y".toList)).map wordOf =
    ["rm".toList, "-rf".toList, "/".toList] := by
  decide

end Words

/-- A place in a script where a word begins, outside of quotes: at the start, or right after a
metacharacter. -/
structure Place (script : List Char) where
  before : Marked
  rest : Marked
  split : marks .plain script = before ++ rest
  opens : before.getLast?.all isMeta = true
  begins : rest.head?.any (!isMeta ·) = true

namespace Place

variable {script : List Char} (place : Place script)

def word : Marked := place.rest.takeWhile (!isMeta ·)

def after : Marked := place.rest.dropWhile (!isMeta ·)

/-- The words of the simple command that begins here, if one does. -/
def words : List Marked := simpleCommand .word [] place.rest

theorem text_split : script = text place.before ++ text place.rest := by
  rw [← text_append, ← place.split, text_marks]

theorem rest_eq : place.rest = place.word ++ place.after :=
  List.takeWhile_append_dropWhile.symm

theorem head_after {c : Char × Bool} (first : place.after.head? = some c) : isMeta c = true := by
  have found := List.head?_dropWhile_not (!isMeta ·) place.rest
  rw [show (place.rest.dropWhile (!isMeta ·)).head? = some c from first] at found
  simpa using found

end Place

theorem no_place_nil (place : Place []) : False := by
  rcases place with ⟨before, rest, split, opens, begins⟩
  have nothing : rest = [] := (List.append_eq_nil_iff.mp split.symm).2
  rw [nothing] at begins
  cases begins

/-- Which of the words of a script a shell runs as commands, or hands on to be run. -/
abbrev Reading := ∀ script, Place script → Prop

section Joined

variable {α : Type} {p : α → Bool}

/-- The list is made of the parts, with one element of the class between two. -/
inductive Joined (p : α → Bool) : List (List α) → List α → Prop where
  | last (part : List α) : Joined p [part] part
  | cons (part : List α) {c : α} {parts : List (List α)} {l : List α} (sep : p c = true)
      (joined : Joined p parts l) : Joined p (part :: parts) (part ++ c :: l)

theorem joined_splitOnP (l : List α) : Joined p (l.splitOnP p) l := by
  induction l with
  | nil => exact .last []
  | cons x l ih =>
      rw [List.splitOnP_cons_eq_if_modifyHead]
      split
      next sep => exact .cons [] sep ih
      next =>
        generalize l.splitOnP p = parts at ih
        cases ih with
        | last => exact .last (x :: l)
        | cons part sep joined => exact .cons (x :: part) sep joined

theorem joined_cons {part : List α} {parts : List (List α)} {l : List α}
    (joined : Joined p (part :: parts) l) :
    (parts = [] ∧ l = part) ∨
      ∃ c rest, p c = true ∧ l = part ++ c :: rest ∧ Joined p parts rest := by
  cases joined with
  | last => exact .inl ⟨rfl, rfl⟩
  | cons part sep joined => exact .inr ⟨_, _, sep, rfl, joined⟩

def Closed (p : α → Bool) (l : List α) : Prop := ∀ c, l.getLast? = some c → p c = true

theorem closed_nil : Closed p [] := by
  intro c last
  cases last

theorem closed_concat {l : List α} {c : α} (sep : p c = true) : Closed p (l ++ [c]) := by
  intro d last
  rw [List.getLast?_concat] at last
  cases last
  exact sep

theorem closed_right {l r : List α} (closed : Closed p (l ++ r)) : Closed p r := by
  intro c last
  cases r with
  | nil => cases last
  | cons x r => exact closed c (by rw [List.getLast?_append_of_ne_nil l (by simp), last])

theorem joined_dropEmpty {parts rest : List (List α)} {part : List α} {l : List α}
    (joined : Joined p parts l) (skip : parts.dropWhile (·.isEmpty) = part :: rest) :
    ∃ gap l', l = gap ++ l' ∧ (∀ c ∈ gap, p c = true) ∧ Joined p (part :: rest) l' := by
  induction joined with
  | last only =>
      cases only with
      | nil => cases skip
      | cons x only => exact ⟨[], _, rfl, by simp, skip ▸ .last (x :: only)⟩
  | @cons first c parts l sep joined ih =>
      cases first with
      | nil =>
          rcases ih skip with ⟨gap, l', whole, inside, later⟩
          refine ⟨c :: gap, l', by rw [whole]; rfl, ?_, later⟩
          intro d member
          rcases List.mem_cons.mp member with same | other
          · rw [same]
            exact sep
          · exact inside d other
      | cons x first => exact ⟨[], _, rfl, by simp, skip ▸ .cons (x :: first) sep joined⟩

end Joined

end SmolNas.Lib.Shell
