import SmolNas.App.ScriptReview
import SmolNas.Lib.AndList

/-! The lines of the posted text on one physical line: what the shell runs of them. -/

namespace SmolNas.App

open Py Lib

/-- Whatever the commands do, running the joined script runs the command of each line in
order up to the first one that fails. -/
def RunsEveryLine (lines : List Str) : Prop :=
  ∀ (W : Type) (exec : W → List AndList.Word → W × Bool) (w : W),
    AndList.runLine exec w (joinCommands lines) =
      some (AndList.runAll exec w (lines.map AndList.lineWords))

section Extracted

theorem accepted_words {line : Str} (accepted : acceptsLine line = true) :
    AndList.lineWords line ≠ [] := by
  rcases List.any_eq_true.mp accepted with ⟨start, known, first⟩
  have table : ∀ start ∈ shellPrefixes, start = start.dropLast ++ [' '] ∧
      AndList.uncommented true start.dropLast = start.dropLast ∧
      AndList.tokens start.dropLast ≠ [] := by decide +kernel
  rcases table start known with ⟨ending, whole, some⟩
  rcases List.isPrefixOf_iff_prefix.mp first with ⟨rest, text⟩
  have split : line = start.dropLast ++ ' ' :: rest := by
    rw [← text]
    nth_rewrite 1 [ending]
    simp
  rw [AndList.lineWords, split, AndList.uncommented_append whole, AndList.tokens_append]
  exact List.append_ne_nil_of_left_ne_nil some _

theorem extracted_accepted (db : CharData) (text : Str) :
    ∀ line ∈ extractedCommands db text, acceptsLine line = true ∧ '\n' ∉ line := by
  intro line member
  rw [extractedCommands_eq] at member
  rcases List.mem_flatten.mp member with ⟨pieces, inside, own⟩
  rcases List.mem_map.mp inside with ⟨raw, present, same⟩
  rcases linePieces_spec db raw with ⟨part, within, sub, accepted⟩
  rw [same] at sub accepted
  refine ⟨accepted line own, ?_⟩
  have either := sub.subset own
  rw [List.mem_cons, List.mem_singleton] at either
  rcases either with prerequisite | cut
  · rw [prerequisite]
    decide
  · rw [cut]
    exact fun feed => splitlines_feedless text raw present (within.subset feed)

end Extracted

/-- Lines of plain words, with or without comments: each of them is run exactly when none
but the last has a comment. -/
theorem runs_every_line_iff (db : CharData) (text : Str)
    (plain : ∀ line ∈ extractedCommands db text,
      (AndList.lineWords line).all AndList.isPlainWord = true) :
    RunsEveryLine (extractedCommands db text) ↔
      ∀ line ∈ (extractedCommands db text).dropLast, AndList.hasComment line = false := by
  apply AndList.runLine_joined_iff
  intro line member
  have accepted := extracted_accepted db text line member
  exact ⟨accepted_words accepted.1, plain line member, accepted.2⟩

def commentedText : Str := "ls /srv # the files\ndf -h".toList

/-- The second command is part of the first one's comment. -/
theorem comment_hides_command : ¬∀ (db : CharData) (text : Str),
    (∀ line ∈ extractedCommands db text,
      (AndList.lineWords line).all AndList.isPlainWord = true) →
    RunsEveryLine (extractedCommands db text) := by
  intro all
  have lines : extractedCommands .ascii commentedText =
      ["ls /srv # the files".toList, "df -h".toList] := by decide +kernel
  have runs := all .ascii commentedText (by rw [lines]; decide +kernel)
  rw [lines] at runs
  have same := runs Unit (fun w _ => (w, true)) ()
  revert same
  decide +kernel

theorem runs_every_line_last :
    RunsEveryLine (extractedCommands .ascii "df -h\nls /srv # the files".toList) :=
  (runs_every_line_iff .ascii "df -h\nls /srv # the files".toList (by decide +kernel)).mpr
    (by decide +kernel)

end SmolNas.App
