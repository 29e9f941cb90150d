import Mathlib.Data.List.Forall2
import SmolNas.App.FilterKept

/-! The script that runs, against the posted text and against the script that was checked. -/

namespace SmolNas.App

open Py Lib

section Lines

variable {db : CharData}

theorem numbering_late {before s : Str} (some : before ≠ []) :
    (numberingRe db).run before s = [] := by
  have late : Re.bol.run before s = [] := by
    rw [Re.bol, Re.run, if_neg (by simpa using some)]
  rw [numberingRe, Re.run, late, List.flatMap_nil]

theorem numbering_suffix (s : Str) : (numberingRe db).sub [] s <:+ s := by
  have rest (fuel : Nat) {before s : Str} (some : before ≠ []) :
      (numberingRe db).subFrom [] fuel before s = s :=
    Re.subFrom_none fuel fun a b _ => numbering_late (by simp [some])
  cases s with
  | nil => exact List.suffix_rfl
  | cons c s =>
      rw [Re.sub, List.length_cons, Re.subFrom]
      split
      next m found =>
        obtain ⟨w, text, past, -⟩ := Re.run_text (List.mem_of_head? found)
        split
        next shorter =>
          rw [List.nil_append, rest]
          · exact ⟨w, text.symm⟩
          · intro empty
            rw [past, List.append_nil, List.reverse_eq_nil_iff] at empty
            rw [text, empty] at shorter
            exact absurd shorter (Nat.lt_irrefl _)
        next =>
          rw [rest _ (List.cons_ne_nil c [])]
      next => rw [rest _ (List.cons_ne_nil c [])]

theorem matchGroup_part {r g : Re} {s group : Str} (found : Re.matchGroup r g s = some group) :
    group <:+: s := by
  obtain ⟨m, first, inner⟩ := List.mem_flatMap.mp (List.mem_of_head? found)
  obtain ⟨k, -, rfl⟩ := List.mem_map.mp inner
  obtain ⟨w, text, -⟩ := Re.run_text first
  have suffix : m.2 <:+ s := ⟨w, text.symm⟩
  exact (List.take_prefix _ m.2).isInfix.trans suffix.isInfix

theorem cleanLine_part (line : Str) : cleanLine db line <:+: line := by
  have numbered : strip ((numberingRe db).sub [] line) <:+: line :=
    (strip_part _).trans (numbering_suffix line).isInfix
  rw [cleanLine]
  split
  next group found => exact ((strip_part group).trans (matchGroup_part found)).trans numbered
  next => exact numbered

/-- The commands of one line: a part of it, after the prerequisite of an `sshd` test. -/
def LinePieces (line : Str) (pieces : List Str) : Prop :=
  ∃ part, part <:+: line ∧ List.Sublist pieces [sshdPrerequisite, part] ∧
    ∀ piece ∈ pieces, acceptsLine piece = true

def linePieces (db : CharData) (line : Str) : List Str :=
  if strip line = [] then [] else lineCommands (cleanLine db (strip line))

theorem linePieces_spec (db : CharData) (line : Str) : LinePieces line (linePieces db line) := by
  rw [linePieces]
  split
  next => exact ⟨[], List.nil_infix, List.nil_sublist _, by simp⟩
  next =>
    refine ⟨cleanLine db (strip line), (cleanLine_part _).trans (strip_part line), ?_, ?_⟩
    · rw [lineCommands]
      split <;> split <;> simp
    · intro piece member
      rcases List.mem_append.mp member with prerequisite | own
      · split at prerequisite
        · rw [List.mem_singleton.mp prerequisite]
          decide
        · cases prerequisite
      · split at own
        next accepted => rwa [List.mem_singleton.mp own]
        next => cases own

theorem extractedCommands_eq (db : CharData) (text : Str) :
    extractedCommands db text = ((splitlines text).map (linePieces db)).flatten := by
  rw [extractedCommands, commandLines]
  induction splitlines text with
  | nil => rfl
  | cons line lines ih =>
      rw [List.map_cons, List.map_cons, List.flatten_cons, ← ih, linePieces]
      split
      next blank => rw [List.filter_cons_of_neg (by simp [blank]), List.nil_append]
      next some =>
        rw [List.filter_cons_of_pos (by simpa using some), List.map_cons, List.flatMap_cons]

end Lines

/-- The script that runs is made of parts of the lines of the text, in their order; it
passes the filter, each `sudo` of it has its option, and a second rewrite changes nothing. -/
theorem executed_script (db : CharData) (nearby : db.LowerLocal) (text script : Str)
    (runs : Reaches db text script) :
    (∃ groups, List.Forall₂ LinePieces (splitlines text) groups ∧
      isDestructive db (db.lower (joinCommands groups.flatten)) = false ∧
      Optioned db [] (joinCommands groups.flatten) script) ∧
    isDestructive db (db.lower script) = false ∧ OptionsGiven db script ∧
    sudoRewrite db script = script := by
  rw [reaches_iff, scriptOf_ok_iff] at runs
  obtain ⟨-, -, passed, rfl⟩ := runs
  have given := sudoRewrite_options db (checkedScript db text)
  refine ⟨⟨(splitlines text).map (linePieces db), ?_, ?_, ?_⟩, sudoRewrite_passes nearby passed,
    given, sudoRewrite_fixed given⟩
  · rw [List.forall₂_map_right_iff, List.forall₂_same]
    exact fun line _ => linePieces_spec db line
  · rw [← extractedCommands_eq]
    exact passed
  · rw [← extractedCommands_eq]
    exact optioned_sudoRewrite db (checkedScript db text)

theorem executed_script_restart :
    Reaches .ascii "1. Restart it: sudo  systemctl restart smbd".toList
        "sudo -n systemctl restart smbd".toList ∧
      OptionsGiven .ascii "sudo -n systemctl restart smbd".toList := by
  have runs : Reaches .ascii "1. Restart it: sudo  systemctl restart smbd".toList
      "sudo -n systemctl restart smbd".toList := by
    rw [reaches_iff]
    decide +kernel
  exact ⟨runs, (executed_script .ascii CharData.ascii_lowerLocal _ _ runs).2.2.1⟩

end SmolNas.App
