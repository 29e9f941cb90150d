import SmolNas.App.Explorer
import SmolNas.App.ShareList
import SmolNas.Lib.Entities
import SmolNas.Lib.ScriptLiteral

/-! The delete forms of the files and shares pages: the name stands in a string literal of the
script in `onsubmit`, escaped for the attribute around it. -/

namespace SmolNas.App

open Py Fs Lib

section Forms

inductive DeleteForm where
  | file (entry : FileEntry)
  | share (info : ShareInfo)

namespace DeleteForm

def name : DeleteForm → Str
  | file entry => entry.name
  | share info => info.name

def lead : DeleteForm → Str
  | file entry =>
      if entry.isDir then "return confirm('Permanently delete folder ".toList
      else "return confirm('Permanently delete ".toList
  | share _ => "return confirm('Decommission share node ".toList

def tail : DeleteForm → Str
  | file entry => if entry.isDir then " and ALL contents?');".toList else "?');".toList
  | share _ => "?');".toList

end DeleteForm

/-- The characters that autoescaping replaces in a template, and the entities that a browser
replaces by them. -/
def markupEntities : Entities Char where
  mark := '&'
  codes :=
    [('&', "&amp;".toList), ('<', "&lt;".toList), ('>', "&gt;".toList), ('\'', "&#39;".toList),
      ('"', "&#34;".toList)]
  opens := by decide
  replaced := by decide
  apart := by decide
  ordered := by decide
  clean := by decide

def DeleteForm.onsubmit (form : DeleteForm) : Str :=
  form.lead ++ markupEntities.escape form.name ++ form.tail

/-- The value of an attribute whose opening quote the text follows. -/
def attributeValue (page : Str) : Str := markupEntities.decode (page.takeWhile (· != '"'))

def DeleteForm.handler (form : DeleteForm) (page : Str) : Str :=
  attributeValue (form.onsubmit ++ '"' :: page)

end Forms

section Statement

def confirmCall : List Script.Token :=
  [.word "return".toList, .word "confirm".toList, .mark '(', .string, .mark ')']

/-- The tokens are those of `return confirm(...)` with one string literal, with a semicolon
after it or not. A line break after `return` would end the statement there. -/
def isConfirmCall (tokens : List (Bool × Script.Token)) : Bool :=
  (tokens.map Prod.snd == confirmCall || tokens.map Prod.snd == confirmCall ++ [.mark ';']) &&
    tokens[1]?.all fun token => !token.1

def isConfirmStatement (script : Str) : Bool := (Script.tokens script).any isConfirmCall

def callLead : List (Bool × Script.Token) :=
  [(true, .word "return".toList), (false, .word "confirm".toList), (false, .mark '(')]

def insideLiteral : Script.Scanner := ⟨callLead, false, .string false .done⟩

/-- Read in the string literal, the name completes the statement and ends in a comment that
runs on to the end of the line. -/
def commentsOut (name : Str) : Bool :=
  let s := insideLiteral.run name
  s.mode == .lineComment && isConfirmCall s.tokens

end Statement

section Reading

def leads : List Str :=
  ["return confirm('Permanently delete folder ".toList,
    "return confirm('Permanently delete ".toList,
    "return confirm('Decommission share node ".toList]

def tails : List Str := [" and ALL contents?');".toList, "?');".toList]

theorem lead_mem (form : DeleteForm) : form.lead ∈ leads := by
  cases form with
  | file entry =>
      dsimp only [DeleteForm.lead, leads]
      split
      · exact List.mem_cons_self
      · exact List.mem_cons_of_mem _ List.mem_cons_self
  | share info => exact List.mem_cons_of_mem _ (List.mem_cons_of_mem _ List.mem_cons_self)

theorem tail_mem (form : DeleteForm) : form.tail ∈ tails := by
  cases form with
  | file entry =>
      dsimp only [DeleteForm.tail, tails]
      split
      · exact List.mem_cons_self
      · exact List.mem_cons_of_mem _ List.mem_cons_self
  | share info => exact List.mem_cons_of_mem _ List.mem_cons_self

/-- The browser undoes the escaping, so the script has the name as it is. -/
theorem handler_text (form : DeleteForm) (page : Str) :
    form.handler page = form.lead ++ (form.name ++ form.tail) := by
  have lead : '"' ∉ form.lead ∧ '&' ∉ form.lead := by
    have table : ∀ text ∈ leads, '"' ∉ text ∧ '&' ∉ text := by decide
    exact table form.lead (lead_mem form)
  have tail : '"' ∉ form.tail ∧ '&' ∉ form.tail := by
    have table : ∀ text ∈ tails, '"' ∉ text ∧ '&' ∉ text := by decide
    exact table form.tail (tail_mem form)
  have name : '"' ∉ markupEntities.escape form.name :=
    markupEntities.escape_clean form.name (show ('"', "&#34;".toList) ∈ markupEntities.codes by
      decide) (by decide)
  have quoteless : ∀ c ∈ form.onsubmit, (c != '"') = true := by
    intro c member
    rw [bne_iff_ne]
    rintro rfl
    simp only [DeleteForm.onsubmit, List.mem_append] at member
    rcases member with (inside | inside) | inside
    · exact lead.1 inside
    · exact name inside
    · exact tail.1 inside
  have value : (form.onsubmit ++ '"' :: page).takeWhile (· != '"') = form.onsubmit := by
    rw [List.takeWhile_append_of_pos quoteless]
    simp
  have plain := markupEntities.decode_plain tail.2 []
  rw [List.append_nil] at plain
  rw [DeleteForm.handler, attributeValue, value, DeleteForm.onsubmit, List.append_assoc,
    markupEntities.decode_plain lead.2, markupEntities.decode_escape_append, plain]
  exact congrArg (fun rest => form.lead ++ (form.name ++ rest)) (List.append_nil _)

theorem run_lead (form : DeleteForm) : Script.Scanner.start.run form.lead = insideLiteral := by
  have table : ∀ text ∈ leads, Script.Scanner.start.run text = insideLiteral := by decide
  exact table form.lead (lead_mem form)

/-- The tokens of a script that ends with one of the tails, after what is read before it. -/
def closeCall (s : Script.Scanner) : Option (List (Bool × Script.Token)) :=
  match s.mode with
  | .string false escape =>
      if escape.isComplete then
        some (((s.emit .string).emit (.mark ')')).emit (.mark ';')).tokens
      else none
  | .lineComment => some s.tokens
  | _ => none

/-- The tails have a quote that closes the literal, but neither a line break nor what ends
another token. -/
theorem run_tail (s : Script.Scanner) {text : Str} (tail : text ∈ tails) :
    (s.run text).finish = closeCall s := by
  obtain ⟨tokens, broken, mode⟩ := s
  have table : ∀ text ∈ tails, (text.all fun c => !Script.isLineEnd c) = true := by decide
  have line : ∀ c ∈ text, Script.isLineEnd c = false := by
    intro c member
    have plain := List.all_eq_true.mp (table text tail) c member
    rwa [Bool.not_eq_eq_eq_not, Bool.not_true] at plain
  simp only [tails, List.mem_cons, List.not_mem_nil, or_false] at tail
  -- its first character is no digit, so an escape that waits for one fails there
  cases mode with
  | string double escape =>
      cases escape with
      | hex | unicode | braced =>
          cases double <;> rcases tail with rfl | rfl <;> exact Script.Scanner.finish_failed rfl
      | _ => cases double <;> rcases tail with rfl | rfl <;> rfl
  | blockComment star inside => cases star <;> rcases tail with rfl | rfl <;> rfl
  | code | word => rcases tail with rfl | rfl <;> rfl
  | lineComment => rw [Script.Scanner.run_lineComment rfl line]; rfl
  | _ => rcases tail with rfl | rfl <;> exact Script.Scanner.finish_failed rfl

theorem isConfirmCall_length {tokens : List (Bool × Script.Token)}
    (call : isConfirmCall tokens = true) : tokens.length ≤ 6 := by
  have five : confirmCall.length = 5 := rfl
  simp only [isConfirmCall, Bool.and_eq_true, Bool.or_eq_true, beq_iff_eq] at call
  rcases call.1 with same | same
  · have length := congrArg List.length same
    rw [List.length_map] at length
    omega
  · have length := congrArg List.length same
    rw [List.length_map, List.length_append, List.length_singleton] at length
    omega

/-- With the literal, the bracket and the semicolon of the tail the call is complete, unless
the name has added tokens. -/
theorem isConfirmCall_close (s : Script.Scanner) (lead : callLead <+: s.tokens) :
    isConfirmCall (((s.emit .string).emit (.mark ')')).emit (.mark ';')).tokens =
      (s.tokens.length == 3) := by
  have added : (((s.emit .string).emit (.mark ')')).emit (.mark ';')).tokens =
      s.tokens ++ [(s.broken, .string)] ++ [(false, .mark ')')] ++ [(false, .mark ';')] := rfl
  rw [added]
  obtain ⟨rest, whole⟩ := lead
  have three : callLead.length = 3 := rfl
  have length := congrArg List.length whole
  rw [List.length_append] at length
  cases rest with
  | nil =>
      rw [← whole]
      cases s.broken <;> rfl
  | cons token rest =>
      rw [List.length_cons] at length
      have long : (s.tokens.length == 3) = false := by
        rw [beq_eq_false_iff_ne]
        omega
      rw [long]
      refine Bool.eq_false_iff.mpr fun call => ?_
      have short := isConfirmCall_length call
      simp only [List.length_append, List.length_singleton] at short
      omega

theorem isConfirmStatement_handler (form : DeleteForm) (page : Str) :
    isConfirmStatement (form.handler page) =
      (closeCall (insideLiteral.run form.name)).any isConfirmCall := by
  rw [isConfirmStatement, Script.tokens, handler_text, Script.Scanner.run_append, run_lead,
    Script.Scanner.run_append, run_tail _ (tail_mem form)]

/-- The call stays as it is exactly for the names that are text of a string literal, or that
complete it themselves and end in a comment. -/
theorem confirm_statement_iff (form : DeleteForm) (page : Str) :
    isConfirmStatement (form.handler page) = true ↔
      Script.Characters '\'' form.name ∨ commentsOut form.name = true := by
  have lead : callLead <+: (insideLiteral.run form.name).tokens :=
    insideLiteral.run_tokens form.name
  have text : (insideLiteral.run form.name).isOpen false 3 = true ↔
      Script.Characters '\'' form.name :=
    @Script.Scanner.isOpen_iff insideLiteral false form.name
  rw [isConfirmStatement_handler, ← text, commentsOut]
  generalize insideLiteral.run form.name = s at lead
  have close := isConfirmCall_close s lead
  obtain ⟨tokens, broken, mode⟩ := s
  -- the tail closes an open literal, a comment swallows it, and anything else it spoils
  cases mode with
  | string double escape =>
      cases double with
      | false =>
          cases complete : escape.isComplete with
          | false => simp [closeCall, Script.Scanner.isOpen, complete]
          | true => simp [closeCall, Script.Scanner.isOpen, complete, close]
      | true => simp [closeCall, Script.Scanner.isOpen]
  | _ => simp [closeCall, Script.Scanner.isOpen]

example : commentsOut "a');//".toList = true := by decide

def alertName : Str := "a');alert('".toList

def alertStore : Tree where
  entries := [(["srv".toList], .dir), (nasNames, .dir), (nasNames ++ [alertName], .file)]
  wellFormed := by decide +kernel

/-- A name with a quote and a bracket ends the call and makes another one. -/
theorem quoted_name_adds_call :
    ¬((∀ db t cwd subpath loc rows entry page, filesPage db t cwd subpath = some (loc, rows) →
        entry ∈ rows → isConfirmStatement ((DeleteForm.file entry).handler page) = true) ∧
      ∀ db conf info page, info ∈ getShares db conf →
        isConfirmStatement ((DeleteForm.share info).handler page) = true) := by
  rintro ⟨every, -⟩
  have listed : filesPage .ascii alertStore "/".toList [] =
      some (nasNames, [⟨alertName, false, alertName⟩]) := by decide +kernel
  have statement := every .ascii alertStore "/".toList [] _ _ _ [] listed List.mem_cons_self
  rw [isConfirmStatement_handler] at statement
  exact absurd statement (by decide +kernel)

end Reading

end SmolNas.App
