import SmolNas.App.Removal

/-! The deny filter against the recursive removal of the root directory. -/

namespace SmolNas.App

open Py Lib

section Filter

variable {db : CharData}

theorem removal_text {last : Bool} {command : Shell.Marked}
    (plain : isPlainRemoval last command = true) :
    ∃ (c d : Char) (blanks flag t r : Str),
      Shell.text command = "rm".toList ++ (c :: blanks ++ (flag ++ ([d] ++ t))) ++ r ∧
      Shell.isBlankChar c = true ∧ (∀ e ∈ blanks, Shell.isBlankChar e = true) ∧
      isRecursiveFlag flag = true ∧ Shell.isBlankChar d = true ∧ RootTail t ∧
      ((r = [] ∧ last = true) ∨ ∃ e, r.head? = some e ∧ Shell.isBlankChar e = true) := by
  have joined : Shell.Joined Shell.isBlank (Shell.fields command) command :=
    Shell.joined_splitOnP command
  unfold isPlainRemoval at plain
  generalize Shell.fields command = fields at joined plain
  split at plain
  next => cases plain
  next field arguments =>
    rw [Bool.and_eq_true, beq_iff_eq] at plain
    obtain ⟨program, plain⟩ := plain
    split at plain
    next => cases plain
    next flag rest dropped =>
      rw [Bool.and_eq_true] at plain
      rcases Shell.joined_cons joined with ⟨rfl, -⟩ | ⟨c, w, blank, rfl, later⟩
      · cases dropped
      obtain ⟨blanks, w, rfl, allBlank, found⟩ := Shell.joined_dropEmpty later dropped
      rcases Shell.joined_cons found with ⟨rfl, -⟩ | ⟨d, w, blank', rfl, operands⟩
      · cases plain.2
      obtain ⟨t, r, text, tail, ending⟩ := rootFollows_tail operands plain.2
      refine ⟨c.1, d.1, Shell.text blanks, Shell.text flag, t, r, ?_, marked_blank blank,
        text_blanks allBlank, plain.1, marked_blank blank', tail, ending⟩
      rw [← program]
      simp [Shell.text] at text ⊢
      exact text

theorem flag_chars {flag : Str} (recursive : isRecursiveFlag flag = true) :
    ∀ c ∈ flag, c.toNat < 128 ∧ c ≠ ' ' := by
  unfold isRecursiveFlag at recursive
  split at recursive
  next letters =>
    rw [Bool.and_eq_true, List.all_eq_true] at recursive
    intro c member
    rcases List.mem_cons.mp member with rfl | letter
    · decide
    · have range := alpha_small (recursive.1 c letter)
      refine ⟨by omega, ?_⟩
      intro equal
      subst equal
      exact absurd range.1 (by decide)
  next => cases recursive

section Text

variable {c d : Char} {blanks flag t : Str} (blank : Shell.isBlankChar c = true)
  (spaces : ∀ e ∈ blanks, Shell.isBlankChar e = true) (recursive : isRecursiveFlag flag = true)
  (blank' : Shell.isBlankChar d = true) (tail : RootTail t)

include blank spaces recursive blank' tail

theorem removal_noSudo {b : Str} :
    NoSudo ("rm".toList ++ (c :: blanks ++ (flag ++ ([d] ++ t)))) b := by
  have allBlank : ∀ e ∈ c :: blanks, Shell.isBlankChar e = true :=
    List.forall_mem_cons.mpr ⟨blank, spaces⟩
  have gap : 's' ∉ c :: blanks := fun member => absurd (allBlank 's' member) (by decide)
  have word : ' ' ∉ flag := fun member => (flag_chars recursive ' ' member).2 rfl
  exact noSudo_append (noSudo_of_notMem (by decide)) (noSudo_append (noSudo_of_notMem gap)
    (noSudo_append (noSudo_beforeTail word blank' tail)
      (noSudo_append (noSudo_blank blank' _) (rootTail_noSudo tail))))

theorem removal_small :
    ∀ e ∈ "rm".toList ++ (c :: blanks ++ (flag ++ ([d] ++ t))), e.toNat < 128 := by
  have allBlank : ∀ e ∈ c :: blanks, Shell.isBlankChar e = true :=
    List.forall_mem_cons.mpr ⟨blank, spaces⟩
  intro e member
  rcases List.mem_append.mp member with program | member
  · have small : ∀ e ∈ "rm".toList, e.toNat < 128 := List.all_iff_forall_prop.mp (by decide)
    exact small e program
  rcases List.mem_append.mp member with gap | member
  · exact (blankChar_small (allBlank e gap)).1
  rcases List.mem_append.mp member with letter | member
  · exact (flag_chars recursive e letter).1
  rcases List.mem_append.mp member with first | later
  · rw [List.mem_singleton.mp first]
    exact (blankChar_small blank').1
  · exact rootTail_small tail e later

end Text

theorem removal_found {script : Str} (place : Shell.Place (sudoRewrite db script))
    (shown : showsRemoval place = true) : isDestructive db (db.lower script) = true := by
  rw [showsRemoval, Bool.and_eq_true] at shown
  obtain ⟨open', plain⟩ := shown
  obtain ⟨c, d, blanks, flag, t, r, text, blank, spaces, recursive, blank', tail, ending⟩ :=
    removal_text plain
  have whole := place.text_split
  have parts := List.takeWhile_append_dropWhile (p := (!Shell.isSeparator ·)) (l := place.rest)
  rw [← parts, Shell.text_append, text, List.append_assoc] at whole
  have next : ∀ e, (r ++ Shell.text (place.rest.dropWhile (!Shell.isSeparator ·))).head? = some e →
      Shell.isBlankChar e = true := by
    intro e first
    rcases ending with ⟨rfl, last⟩ | ⟨e', found, blank⟩
    · rw [List.isEmpty_iff.mp last] at first
      cases first
    · rw [List.head?_append, found, Option.some_or] at first
      cases first
      exact blank
  obtain ⟨front, rest, lower, edge, head⟩ := rewrite_place whole (closed_of_open open')
    (fun dash => by cases dash) (removal_noSudo blank spaces recursive blank' tail)
    (removal_small blank spaces recursive blank' tail) (by
      intro e first
      exact db.fixed_of_space (blankChar_space (next e first)))
  obtain ⟨before', s, found⟩ := removal_matches blank spaces recursive blank' tail
    (fun e first => blankChar_space (next e (head ▸ first))) front.reverse
  have seen : rmRe.search (db.lower script) = true := by
    rw [lower]
    exact search_commandStart edge found
  rw [isDestructive, seen]
  simp

end Filter

/-- For any reading of the script: no command removes the root directory exactly when the text is
refused, or every command that would has the form that the filter knows. -/
theorem removes_no_root_iff (db : CharData) (isProgram : Shell.Reading) (text : Str) :
    NeverRuns db isProgram removesRoot text ↔
      maxScript < (checkedScript db text).length ∨
        isDestructive db (db.lower (checkedScript db text)) = true ∨
        ∀ place : Shell.Place (sudoRewrite db (checkedScript db text)),
          isProgram _ place → removesRoot place = true → showsRemoval place = true :=
  neverRuns_iff db isProgram removal_found text

theorem root_entries_removed :
    ¬NeverRuns .ascii partPrograms removesRoot "sudo rm -rf /*".toList := by
  intro none
  have runs : Reaches .ascii "sudo rm -rf /*".toList "sudo -n rm -rf /*".toList := by
    rw [reaches_iff]
    decide +kernel
  have allowed := none _ runs (afterSudo "rm -rf /*".toList (by decide))
    (show isProgramWord _ = true by decide +kernel)
  revert allowed
  decide +kernel

end SmolNas.App
