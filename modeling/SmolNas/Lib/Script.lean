import Mathlib.Data.List.Infix

/-! The tokens of a short ECMAScript text, read character by character. Words, brackets,
semicolons, string literals, white space and comments are told apart; any other token ends
the reading. -/

namespace SmolNas.Lib.Script

section Scanner

inductive Token where
  | word (text : List Char)
  | mark (c : Char)
  | string
  deriving DecidableEq, Repr

/-- How far an escape sequence of a string literal has been read. `hex n` waits for `n + 1`
digits, and `braced` holds the value of the digits after `\u` and the opening brace. -/
inductive Escape where
  | done
  | started
  | afterReturn
  | hex (n : Nat)
  | unicode
  | braced (value : Option Nat)
  deriving DecidableEq, Repr

inductive Mode where
  | code
  | word (text : List Char)
  | slash
  | lineComment
  | blockComment (star broken : Bool)
  | less
  | lessBang
  | lessDash
  | dash
  | dashes
  | string (double : Bool) (escape : Escape)
  | failed
  deriving DecidableEq, Repr

/-- The tokens read so far, each with the flag whether a line break stands before it; that
flag for the next token; and what is being read. -/
structure Scanner where
  tokens : List (Bool × Token)
  broken : Bool
  mode : Mode
  deriving DecidableEq, Repr

def isLineEnd (c : Char) : Bool :=
  c == '\n' || c == '\r' || c.toNat == 0x2028 || c.toNat == 0x2029

/-- White space that ends no line. -/
def isSpace (c : Char) : Bool :=
  let n := c.toNat
  n == 9 || n == 11 || n == 12 || n == 32 || n == 0xA0 || n == 0x1680 ||
    (0x2000 ≤ n && n ≤ 0x200A) || n == 0x202F || n == 0x205F || n == 0x3000 || n == 0xFEFF

def isWordChar (c : Char) : Bool := c.isAlphanum || c == '_' || c == '$'

def isMark (c : Char) : Bool := c == '(' || c == ')' || c == ';'

def hexDigit (c : Char) : Option Nat :=
  let n := c.toNat
  if 48 ≤ n ∧ n ≤ 57 then some (n - 48)
  else if 97 ≤ n ∧ n ≤ 102 then some (n - 87)
  else if 65 ≤ n ∧ n ≤ 70 then some (n - 55)
  else none

namespace Scanner

def start : Scanner := ⟨[], true, .code⟩

def within (s : Scanner) (mode : Mode) : Scanner := { s with mode := mode }

def emit (s : Scanner) (token : Token) : Scanner := ⟨s.tokens ++ [(s.broken, token)], false, .code⟩

/-- The first character of a token or a comment, or what stands between them. -/
def readCode (s : Scanner) (c : Char) : Scanner :=
  if isLineEnd c then ⟨s.tokens, true, .code⟩
  else if isSpace c then s.within .code
  else if c = '/' then s.within .slash
  else if c = '<' then s.within .less
  else if c = '-' then s.within .dash
  else if c = '\'' then s.within (.string false .done)
  else if c = '"' then s.within (.string true .done)
  else if isMark c then s.emit (.mark c)
  else if isWordChar c then s.within (.word [c])
  else s.within .failed

/-- A character of a string literal that no escape takes. Line and paragraph separators may
stand in a literal, the other line ends not. -/
def readPlain (s : Scanner) (double : Bool) (c : Char) : Scanner :=
  if c = '\\' then s.within (.string double .started)
  else if c = (if double then '"' else '\'') then s.emit .string
  else if c = '\n' ∨ c = '\r' then s.within .failed
  else s.within (.string double .done)

def readString (s : Scanner) (double : Bool) (escape : Escape) (c : Char) : Scanner :=
  match escape with
  | .done => s.readPlain double c
  | .afterReturn => if c = '\n' then s.within (.string double .done) else s.readPlain double c
  | .started =>
      if c = 'x' then s.within (.string double (.hex 1))
      else if c = 'u' then s.within (.string double .unicode)
      else if c = '\r' then s.within (.string double .afterReturn)
      else s.within (.string double .done)
  | .hex n =>
      if (hexDigit c).isSome then
        s.within (.string double (if n = 0 then .done else .hex (n - 1)))
      else s.within .failed
  | .unicode =>
      if c = '\x7b' then s.within (.string double (.braced none))
      else if (hexDigit c).isSome then s.within (.string double (.hex 2))
      else s.within .failed
  | .braced value =>
      match hexDigit c with
      | some digit =>
          if value.getD 0 * 16 + digit ≤ 0x10FFFF then
            s.within (.string double (.braced (some (value.getD 0 * 16 + digit))))
          else s.within .failed
      | none =>
          if c = '\x7d' ∧ value.isSome = true then s.within (.string double .done)
          else s.within .failed

def step (s : Scanner) (c : Char) : Scanner :=
  match s.mode with
  | .code => s.readCode c
  | .word text =>
      if isWordChar c then s.within (.word (text ++ [c]))
      else (s.emit (.word text)).readCode c
  | .slash =>
      if c = '/' then s.within .lineComment
      else if c = '*' then s.within (.blockComment false false)
      else s.within .failed
  | .lineComment => if isLineEnd c then ⟨s.tokens, true, .code⟩ else s
  | .blockComment star broken =>
      if c = '/' ∧ star = true then ⟨s.tokens, s.broken || broken, .code⟩
      else s.within (.blockComment (c == '*') (broken || isLineEnd c))
  | .less => s.within (if c = '!' then .lessBang else .failed)
  | .lessBang => s.within (if c = '-' then .lessDash else .failed)
  | .lessDash => s.within (if c = '-' then .lineComment else .failed)
  | .dash => s.within (if c = '-' then .dashes else .failed)
  | .dashes => s.within (if c = '>' ∧ s.broken = true then .lineComment else .failed)
  | .string double escape => s.readString double escape c
  | .failed => s

def run (s : Scanner) (text : List Char) : Scanner := text.foldl step s

/-- The tokens of a text that ends here. -/
def finish (s : Scanner) : Option (List (Bool × Token)) :=
  match s.mode with
  | .code => some s.tokens
  | .lineComment => some s.tokens
  | .word text => some (s.tokens ++ [(s.broken, .word text)])
  | _ => none

end Scanner

def tokens (text : List Char) : Option (List (Bool × Token)) := (Scanner.start.run text).finish

end Scanner

section Reading

namespace Scanner

variable (s : Scanner)

theorem run_append (a b : List Char) : s.run (a ++ b) = (s.run a).run b := List.foldl_append

theorem run_cons (c : Char) (text : List Char) : s.run (c :: text) = (s.step c).run text := rfl

theorem readCode_tokens (c : Char) : s.tokens <+: (s.readCode c).tokens := by
  unfold readCode
  split_ifs
  all_goals first | exact List.prefix_refl _ | exact List.prefix_append _ _

theorem readPlain_tokens (double : Bool) (c : Char) :
    s.tokens <+: (s.readPlain double c).tokens := by
  unfold readPlain
  split_ifs
  all_goals first | exact List.prefix_refl _ | exact List.prefix_append _ _

theorem readString_tokens (double : Bool) (escape : Escape) (c : Char) :
    s.tokens <+: (s.readString double escape c).tokens := by
  unfold readString
  cases escape with
  | done => exact s.readPlain_tokens double c
  | afterReturn =>
      dsimp only
      split
      · exact List.prefix_refl _
      · exact s.readPlain_tokens double c
  | started =>
      dsimp only
      split_ifs <;> exact List.prefix_refl _
  | hex n =>
      dsimp only
      split_ifs <;> exact List.prefix_refl _
  | unicode =>
      dsimp only
      split_ifs <;> exact List.prefix_refl _
  | braced value =>
      dsimp only
      split
      · split_ifs <;> exact List.prefix_refl _
      · split_ifs <;> exact List.prefix_refl _

theorem step_tokens (c : Char) : s.tokens <+: (s.step c).tokens := by
  unfold step
  split
  · exact s.readCode_tokens c
  next text _ =>
    split
    · exact List.prefix_refl _
    · exact (List.prefix_append s.tokens _).trans (readCode_tokens (s.emit (.word text)) c)
  · split_ifs <;> exact List.prefix_refl _
  · split_ifs <;> exact List.prefix_refl _
  · split_ifs <;> exact List.prefix_refl _
  · exact List.prefix_refl _
  · exact List.prefix_refl _
  · exact List.prefix_refl _
  · exact List.prefix_refl _
  · exact List.prefix_refl _
  · exact s.readString_tokens _ _ c
  · exact List.prefix_refl _

theorem run_tokens (text : List Char) : s.tokens <+: (s.run text).tokens := by
  induction text generalizing s with
  | nil => exact List.prefix_refl _
  | cons c text ih => exact (s.step_tokens c).trans (ih (s.step c))

variable {s}

theorem run_stays {text : List Char} (stays : ∀ c ∈ text, s.step c = s) : s.run text = s := by
  induction text with
  | nil => rfl
  | cons c text ih =>
      rw [List.forall_mem_cons] at stays
      calc s.run (c :: text) = (s.step c).run text := s.run_cons c text
        _ = s.run text := by rw [stays.1]
        _ = s := ih stays.2

theorem run_failed (failed : s.mode = .failed) (text : List Char) : s.run text = s := by
  apply run_stays
  intro c _
  rw [step, failed]

theorem run_lineComment {text : List Char} (comment : s.mode = .lineComment)
    (line : ∀ c ∈ text, isLineEnd c = false) : s.run text = s := by
  apply run_stays
  intro c member
  rw [step, comment]
  exact if_neg (Bool.eq_false_iff.mp (line c member))

theorem finish_failed {c : Char} {text : List Char} (failed : (s.step c).mode = .failed) :
    (s.run (c :: text)).finish = none := by
  have stays : s.run (c :: text) = s.step c := run_failed failed text
  rw [stays, finish, failed]

end Scanner

end Reading

end SmolNas.Lib.Script
