import SmolNas.App.SmbConf

/-! The sections of `smb.conf`.

A line opens a section when its text starts with `[` and has a `]`, whatever
follows. Every scan of the file by the application knows some of these lines; its
parser knows all but those that continue a value or have nothing in brackets. -/

namespace SmolNas.App

open Py Lib

section Grammar

def headerName (line : Str) : Option Str :=
  match strip line with
  | '[' :: rest => if rest.contains ']' then some (rest.takeWhile (· != ']')) else none
  | _ => none

def isHeader (line : Str) : Bool := (headerName line).isSome

def isBlankLine (line : Str) : Bool := strip line == []

def isSetting (line : Str) : Bool :=
  line.contains '=' && !startswith line [';'] && keysToUpdate.contains (settingKey line)

/-- A line that opens no section: the number of sections opened before it,
whether the last of them is `[global]`, and its text. -/
structure Entry where
  block : Nat
  inGlobal : Bool
  text : Str
  deriving DecidableEq, Repr

def entries : Nat → Bool → List Str → List Entry
  | _, _, [] => []
  | block, inGlobal, text :: rest =>
      if isHeader text then entries (block + 1) (isGlobalLine text) rest
      else ⟨block, inGlobal, text⟩ :: entries block inGlobal rest

/-- The line is not blank, nor a settings line of `[global]`. -/
def Entry.isFixed (e : Entry) : Bool :=
  !isBlankLine e.text && !(e.inGlobal && isSetting e.text)

def headers (conf : Str) : List Str := (texts conf).filter isHeader

def fixedLines (conf : Str) : List Entry := (entries 0 false (texts conf)).filter Entry.isFixed

end Grammar

section Headers

theorem headerName_chomp (line : Str) : headerName (chomp line) = headerName line := by
  rw [headerName, strip_chomp, ← headerName]

theorem isHeader_chomp (line : Str) : isHeader (chomp line) = isHeader line := by
  rw [isHeader, headerName_chomp, ← isHeader]

theorem isGlobalLine_chomp (line : Str) : isGlobalLine (chomp line) = isGlobalLine line := by
  rw [isGlobalLine, strip_chomp, ← isGlobalLine]

theorem isHeader_iff (line : Str) :
    isHeader line = true ↔ ∃ rest, strip line = '[' :: rest ∧ ']' ∈ rest := by
  unfold isHeader headerName
  split
  next rest same =>
    rw [same]
    by_cases closed : ']' ∈ rest
    · simp [closed]
    · simp [closed]
  next other =>
    constructor
    · intro absurdity
      cases absurdity
    · intro given
      rcases given with ⟨rest, same, -⟩
      exact absurd same (other rest)

theorem isHeader_section {line : Str} (opens : isSectionLine line = true) :
    isHeader line = true := by
  rw [isSectionLine, Bool.and_eq_true] at opens
  obtain ⟨rest, front⟩ := List.isPrefixOf_iff_prefix.mp opens.1
  obtain ⟨w, back⟩ := List.isSuffixOf_iff_suffix.mp opens.2
  rw [isHeader_iff]
  refine ⟨rest, front.symm, ?_⟩
  rw [← front] at back
  cases w with
  | nil => cases back
  | cons c w =>
      obtain ⟨-, tail⟩ := List.cons.inj back
      have same : w ++ [']'] = rest := tail
      rw [← same]
      simp

theorem setting_head {line : Str} (setting : isSetting line = true) :
    ∃ c, (strip line).head? = some c ∧ c ≠ '[' := by
  simp only [isSetting, Bool.and_eq_true] at setting
  have known := List.contains_iff_mem.mp setting.2
  have letters : ∀ key ∈ keysToUpdate, key.head?.any (· != '[') = true := by decide
  obtain ⟨c, first, other⟩ := (Option.any_eq_true _ _).mp (letters _ known)
  refine ⟨c, ?_, by simpa using other⟩
  rw [settingKey, strip_head?] at first
  have some : lstrip (line.takeWhile (· != '=')) ≠ [] := by
    intro empty
    rw [empty] at first
    cases first
  have whole := lstrip_append some (line.dropWhile (· != '='))
  rw [List.takeWhile_append_dropWhile] at whole
  rw [strip_head?, whole, List.head?_append, first]
  rfl

theorem setting_not_header {line : Str} (setting : isSetting line = true) :
    isHeader line = false := by
  obtain ⟨c, first, other⟩ := setting_head setting
  rw [← Bool.not_eq_true, isHeader_iff]
  intro given
  rcases given with ⟨rest, same, -⟩
  rw [same] at first
  cases first
  exact other rfl

theorem setting_not_blank {line : Str} (setting : isSetting line = true) :
    isBlankLine line = false := by
  obtain ⟨c, first, -⟩ := setting_head setting
  rw [isBlankLine, beq_eq_false_iff_ne]
  intro empty
  rw [empty] at first
  cases first

theorem setting_chomp {line : Str} (setting : isSetting line = true) :
    isSetting (chomp line) = true := by
  unfold chomp
  split
  next last =>
    obtain ⟨w, rfl⟩ := List.getLast?_eq_some_iff.mp last
    rw [List.dropLast_concat]
    simp only [isSetting, Bool.and_eq_true, List.contains_iff_mem] at setting ⊢
    obtain ⟨⟨assigns, open'⟩, key⟩ := setting
    have inside : '=' ∈ w := by simpa using assigns
    refine ⟨⟨inside, ?_⟩, ?_⟩
    · cases w with
      | nil => cases inside
      | cons c w => exact open'
    · have same : (w ++ ['\n']).takeWhile (· != '=') = w.takeWhile (· != '=') := by
        rw [List.takeWhile_append, if_neg]
        intro whole
        have all := List.takeWhile_eq_self_iff.mp
          ((List.takeWhile_prefix _).eq_of_length whole)
        exact absurd (all '=' inside) (by decide)
      rwa [settingKey, same] at key
  next => exact setting

theorem blank_not_header {line : Str} (blank : isBlankLine line = true) : isHeader line = false := by
  rw [← Bool.not_eq_true, isHeader_iff]
  intro given
  rcases given with ⟨rest, same, -⟩
  rw [isBlankLine, same] at blank
  cases blank

theorem strip_header (name : Str) : strip ('[' :: name ++ [']']) = '[' :: name ++ [']'] := by
  have front : lstrip ('[' :: name ++ [']']) = '[' :: name ++ [']'] := by
    rw [lstrip, List.cons_append, List.dropWhile_cons, if_neg (by decide)]
  rw [strip, front, rstrip, List.rdropWhile_concat_neg _ _ _ (by decide)]

theorem isHeader_name (name : Str) : isHeader ('[' :: name ++ [']']) = true := by
  rw [isHeader_iff]
  exact ⟨name ++ [']'], strip_header name, by simp⟩

end Headers

section Entries

theorem entries_plain (block : Nat) (inGlobal : Bool) {plain : List Str}
    (free : ∀ text ∈ plain, isHeader text = false) (rest : List Str) :
    entries block inGlobal (plain ++ rest) =
      plain.map (Entry.mk block inGlobal) ++ entries block inGlobal rest := by
  induction plain with
  | nil => rfl
  | cons text plain ih =>
      rw [List.cons_append, entries, free text (by simp), if_neg Bool.false_ne_true,
        ih fun other member => free other (by simp [member])]
      rfl

theorem entries_append (block : Nat) (inGlobal : Bool) (a b : List Str) :
    ∃ inGlobal', entries block inGlobal (a ++ b) =
      entries block inGlobal a ++ entries (block + a.countP isHeader) inGlobal' b := by
  induction a generalizing block inGlobal with
  | nil => exact ⟨inGlobal, rfl⟩
  | cons text a ih =>
      rw [List.cons_append, entries, entries, List.countP_cons]
      cases header : isHeader text with
      | true =>
          obtain ⟨flag, same⟩ := ih (block + 1) (isGlobalLine text)
          refine ⟨flag, ?_⟩
          rw [if_pos rfl, if_pos rfl, if_pos rfl, same]
          congr 2
          omega
      | false =>
          obtain ⟨flag, same⟩ := ih block inGlobal
          refine ⟨flag, ?_⟩
          rw [if_neg Bool.false_ne_true, if_neg Bool.false_ne_true, if_neg Bool.false_ne_true, same]
          rfl

theorem entries_block (block : Nat) (inGlobal : Bool) (a : List Str) :
    ∀ e ∈ entries block inGlobal a, block ≤ e.block ∧ e.block ≤ block + a.countP isHeader := by
  induction a generalizing block inGlobal with
  | nil =>
      intro e member
      cases member
  | cons text a ih =>
      intro e member
      rw [entries] at member
      rw [List.countP_cons]
      split at member
      next header =>
        have bounds := ih (block + 1) (isGlobalLine text) e member
        rw [if_pos header]
        omega
      next plain =>
        rw [if_neg plain]
        rcases List.mem_cons.mp member with rfl | later
        · exact ⟨Nat.le_refl _, by simp⟩
        · have bounds := ih block inGlobal e later
          omega

end Entries

end SmolNas.App
