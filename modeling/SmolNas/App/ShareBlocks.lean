import SmolNas.App.ShareAdded
import SmolNas.Lib.Blocks

/-! The scan that deletes a share, as a choice of blocks: a block is a header of the scan and
the lines up to the next one. -/

namespace SmolNas.App

open Py Lib

section Blocks

def sectionLine (line : Str) : Option Str :=
  if isSectionLine line then some (strip line) else none

def shareHeader (name : Str) : Str := '[' :: name ++ [']']

/-- The nearest header before a line, or the line itself. -/
def nearestHeader (lines : List Str) (i : Nat) : Option Str :=
  lastOpened sectionLine (lines.take (i + 1))

/-- The lines before the first header and those whose nearest header is another one. -/
def linesOutside (name : Str) (lines : List Str) : List Str :=
  (lines.zipIdx.filter fun place =>
    nearestHeader lines place.2 != some (shareHeader name)).map Prod.fst

variable (name : Str)

theorem skips_block (block : Option Str) (line : Str) :
    skips name (block == some (shareHeader name)) line =
      ((sectionLine line).or block == some (shareHeader name)) := by
  unfold sectionLine
  by_cases opens : isSectionLine line = true
  · have same : skips name (block == some (shareHeader name)) line = skips name false line := by
      rw [skips, skips, if_pos opens, if_pos opens]
    rw [if_pos opens, Option.some_or, same, Bool.eq_iff_iff, beq_iff_eq, Option.some.injEq]
    constructor
    · exact skips_header
    · intro own
      exact skips_own own false
  · rw [if_neg opens, Option.none_or, skips, if_neg opens]

theorem deleteScan_blocks (block : Option Str) (lines : List Str) :
    deleteScan name (block == some (shareHeader name)) lines =
      ((inBlocks sectionLine block lines).filter fun entry =>
        entry.1 != some (shareHeader name)).map Prod.snd := by
  induction lines generalizing block with
  | nil => rfl
  | cons line lines ih =>
      rw [deleteScan, inBlocks, skips_block, ih, List.filter_cons]
      cases own : (sectionLine line).or block == some (shareHeader name) with
      | true => simp [bne, own]
      | false => simp [bne, own]

theorem deleteScan_ofBlocks (lines : List Str) :
    deleteScan name false lines =
      ofBlocks sectionLine (fun block => block != some (shareHeader name)) lines :=
  deleteScan_blocks name none lines

theorem deleteScan_linesOutside (lines : List Str) :
    deleteScan name false lines = linesOutside name lines := by
  have places := inBlocks_zipIdx sectionLine [] lines
  rw [List.nil_append, List.length_nil] at places
  rw [deleteScan_ofBlocks, ofBlocks]
  calc
    ((inBlocks sectionLine none lines).filter fun entry =>
        entry.1 != some (shareHeader name)).map Prod.snd =
        (((lines.zipIdx.map fun place => (nearestHeader lines place.2, place.1)).filter
          fun entry => entry.1 != some (shareHeader name)).map Prod.snd) := by
      exact congrArg (fun entries => (entries.filter fun entry =>
        entry.1 != some (shareHeader name)).map Prod.snd) places
    _ = linesOutside name lines := by
      rw [List.filter_map, List.map_map]
      rfl

theorem deleteScan_absent {lines : List Str}
    (absent : ∀ line ∈ lines, strip line ≠ shareHeader name) :
    deleteScan name false lines = lines := by
  rw [deleteScan_ofBlocks]
  apply ofBlocks_all
  intro entry member
  rw [bne_iff_ne]
  intro own
  rcases inBlocks_opened sectionLine member with first | ⟨line, inside, opened⟩
  · rw [first] at own
    cases own
  · rw [own, sectionLine] at opened
    split at opened
    next => exact absent line inside (Option.some.inj opened)
    next => cases opened

/-- The scan keeps the lines outside the blocks of the share, so that deleting twice is
deleting once and the order of two deletions does not matter. -/
theorem delete_chooses_blocks (m n : Str) (lines : List Str) :
    deleteScan n false lines = linesOutside n lines ∧
      deleteScan n false (deleteScan n false lines) = deleteScan n false lines ∧
      deleteScan m false (deleteScan n false lines) =
        deleteScan n false (deleteScan m false lines) ∧
      ((∀ line ∈ lines, strip line ≠ shareHeader n) → deleteScan n false lines = lines) := by
  refine ⟨deleteScan_linesOutside n lines, ?_, ?_, deleteScan_absent n⟩
  · simp only [deleteScan_ofBlocks, ofBlocks_ofBlocks, Bool.and_self]
  · simp only [deleteScan_ofBlocks, ofBlocks_ofBlocks]
    congr 1
    funext block
    exact Bool.and_comm _ _

theorem delete_chooses_blocks_docs :
    deleteScan "a".toList false (["[a]\n", "x = 1\n", " [b] \n"].map String.toList) =
        [" [b] \n".toList] ∧
      deleteScan "c".toList false [" [b] \n".toList] = [" [b] \n".toList] :=
  ⟨(delete_chooses_blocks "c".toList "a".toList _).1,
    (delete_chooses_blocks "a".toList "c".toList [" [b] \n".toList]).2.2.2 (by decide)⟩

end Blocks

end SmolNas.App
