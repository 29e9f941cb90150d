import SmolNas.App.FileRemoval

/-! The check `_is_inside_nas_root` against the walk of the kernel, in a tree without links.
The check compares texts; the walk goes from directory to directory. -/

namespace SmolNas.App

open Py Fs

section Names

variable {p : Str}

theorem normComponents_plain (plain : '\x00' ∉ p) :
    ∀ name ∈ normComponents true (components p), '\x00' ∉ name := by
  intro name member inside
  exact plain (mem_of_components (normComponents_subset true _ name member) inside)

theorem normpath_plain (absolute : isabs p = true) (plain : '\x00' ∉ p) : '\x00' ∉ normpath p := by
  intro member
  rcases mem_components member (by decide) with ⟨comp, inside, found⟩
  rcases components_normpath p absolute with ⟨front, empty, comps⟩
  rw [comps] at inside
  rcases List.mem_append.mp inside with lead | name
  · rw [empty comp lead] at found
    cases found
  · exact normComponents_plain plain comp name found

theorem normComponents_valid (plain : '\x00' ∉ p) :
    ∀ name ∈ normComponents true (components p), validName name = true := by
  intro name member
  have proper := normComponents_proper (components p) name member
  have slash := components_no_slash p name (normComponents_subset true _ name member)
  have null := normComponents_plain plain name member
  simp [validName, proper.1, proper.2, slash, null]

theorem pathJoin_plain (plain : '\x00' ∉ p) : '\x00' ∉ pathJoin nasRoot p := by
  unfold pathJoin
  split
  · exact plain
  · rw [if_neg (by decide), List.mem_append, List.mem_cons]
    have root : '\x00' ∉ nasRoot := by decide
    have slash : ('\x00' : Char) ≠ '/' := by decide
    simp only [root, slash, plain, or_self, not_false_eq_true]

end Names

/-- The check accepts a path of the store exactly if the walk for it ends at the root of the
store or at a descendant. -/
theorem inside_iff_walk_ends_below (t : Tree) (free : t.LinkFree) (cwd p : Str)
    (plain : '\x00' ∉ p) (found : Loc) (walked : t.walkEnd (pathJoin nasRoot p) = some found) :
    isInsideNasRoot t cwd (pathJoin nasRoot p) = some (decide (nasNames <+: found)) := by
  have absolute := isabs_pathJoin p
  have whole := pathJoin_plain plain
  have place := free.walkEnd_eq walked
  rw [isInsideNasRoot_linkFree free absolute (normpath_plain absolute whole), ← place,
    Option.some.injEq, Bool.eq_iff_iff, decide_eq_true_iff]
  rw [below_iff (by decide) (by decide) (by
    rw [place]
    exact normComponents_valid whole)]

-- a sibling whose name extends the one of the root
example : plainTree.walkEnd (pathJoin nasRoot "../nas_evil".toList) =
      some ["srv".toList, "nas_evil".toList] ∧
    isInsideNasRoot plainTree "/".toList (pathJoin nasRoot "../nas_evil".toList) = some false := by
  decide +kernel

/-- A file to be made, through the root directory and back. -/
theorem inside_new_file :
    plainTree.walkEnd (pathJoin nasRoot "/../srv//nas/./docs/../new".toList) =
        some (nasNames ++ ["new".toList]) ∧
      isInsideNasRoot plainTree "/".toList (pathJoin nasRoot "/../srv//nas/./docs/../new".toList) =
        some true := by
  have walked : plainTree.walkEnd (pathJoin nasRoot "/../srv//nas/./docs/../new".toList) =
      some (nasNames ++ ["new".toList]) := by
    decide +kernel
  refine ⟨walked, ?_⟩
  rw [inside_iff_walk_ends_below plainTree plainTree_linkFree _ _ (by decide) _ walked]
  rw [decide_eq_true (List.prefix_append _ _)]

end SmolNas.App
