import SmolNas.App.Files
import SmolNas.Fs.LinkFree

/-! What `delete_file` gives to `rm -rf` in a tree without links. The check that it shares
with the views that only read accepts the root of the store itself. -/

namespace SmolNas.App

open Py Fs

def nasNames : List Str := ["srv".toList, "nas".toList]

/-- The argument of `rm -rf` denotes something below the root of the store. -/
def RemovesBelowRoot (t : Tree) (cwd path : Str) : Prop :=
  ∀ absPath, deleteFile t cwd path = .acts .remove absPath →
    ∃ name rest, t.resolve absPath = some (nasNames ++ name :: rest)

def normalNames (path : Str) : List Str :=
  normComponents true (components (pathJoin nasRoot path))

section Check

variable {t : Tree} {cwd path : Str}

theorem realpath_nasRoot (free : t.LinkFree) : t.realpath nasRoot = some (locText nasNames) := by
  have real := free.realpath_normpath (p := nasRoot) (by decide) (by decide)
  have same : normpath nasRoot = nasRoot := by decide
  have names : normComponents true (components nasRoot) = nasNames := by decide
  rw [same, names] at real
  exact real

theorem isInsideNasRoot_linkFree (free : t.LinkFree) {p : Str} (absolute : isabs p = true)
    (plain : '\x00' ∉ normpath p) :
    isInsideNasRoot t cwd p =
      some (locText (normComponents true (components p)) == locText nasNames ||
        startswith (locText (normComponents true (components p))) (locText nasNames ++ ['/'])) := by
  have same : abspath cwd p = normpath p := by rw [abspath, if_pos absolute]
  rw [isInsideNasRoot, same, free.realpath_normpath absolute plain, realpath_nasRoot free]
  rfl

theorem normpath_nasRoot_plain {p : Str} (absolute : isabs p = true)
    (root : normComponents true (components p) = nasNames) : '\x00' ∉ normpath p := by
  have slashes : (initialSlashes p != 0) = true := by
    rcases initialSlashes_absolute absolute with ⟨k, count⟩
    rw [count]
    rfl
  have text : '\x00' ∉ List.replicate (initialSlashes p) '/' ++ join ['/'] nasNames := by
    rw [List.mem_append]
    intro member
    rcases member with slash | name
    · exact absurd (List.eq_of_mem_replicate slash) (by decide)
    · exact absurd name (by decide)
  rw [normpath, slashes, root]
  split
  · decide
  · exact text

theorem deleteFile_root (free : t.LinkFree) (nonempty : path ≠ [])
    (root : normalNames path = nasNames) {found : Loc}
    (resolved : t.resolve (pathJoin nasRoot path) = some found) :
    deleteFile t cwd path = .acts .remove (pathJoin nasRoot path) := by
  have absolute := isabs_pathJoin path
  have inside : isInsideNasRoot t cwd (pathJoin nasRoot path) = some true := by
    rw [isInsideNasRoot_linkFree free absolute (normpath_nasRoot_plain absolute root)]
    rw [normalNames] at root
    rw [root, beq_self_eq_true, Bool.true_or]
  rw [deleteFile, pathView, if_neg nonempty]
  dsimp only
  rw [inside, resolved]
  rfl

theorem deleteFile_exists {action : FileAction} {p : Str}
    (acted : deleteFile t cwd path = .acts action p) : t.resolve p ≠ none := by
  have written := (view_acts t cwd path .deleteFile action p acted).1
  intro missing
  rw [show p = pathJoin nasRoot path from written] at missing
  rw [deleteFile, pathView] at acted
  split at acted
  · cases acted
  · dsimp only at acted
    rw [missing] at acted
    split at acted
    · cases acted
    · cases acted
    · cases acted

end Check

/-- In a tree without links, `rm -rf` is given the root of the store exactly when the form
value is a spelling of it that exists. -/
theorem removes_below_root_iff (t : Tree) (free : t.LinkFree) (cwd path : Str) :
    RemovesBelowRoot t cwd path ↔
      path = [] ∨ normalNames path ≠ nasNames ∨ t.resolve (pathJoin nasRoot path) = none := by
  constructor
  · intro below
    by_contra other
    simp only [not_or, not_not] at other
    rcases other with ⟨nonempty, root, exists_⟩
    rcases Option.ne_none_iff_exists'.mp exists_ with ⟨found, resolved⟩
    have place : found = nasNames := (free.resolve_eq resolved).trans root
    rcases below _ (deleteFile_root free nonempty root resolved) with ⟨name, rest, same⟩
    rw [resolved, place, Option.some.injEq] at same
    have lengths := congrArg List.length same
    simp only [List.length_append, List.length_cons] at lengths
    omega
  · intro condition p acted
    rcases view_acts t cwd path .deleteFile .remove p acted with ⟨whole, inside⟩
    have written : p = pathJoin nasRoot path := whole
    subst written
    have absolute := isabs_pathJoin path
    rcases Option.ne_none_iff_exists'.mp (deleteFile_exists acted) with ⟨found, resolved⟩
    have place := free.resolve_eq resolved
    have under : nasNames <+: found := by
      have names := isInsideNasRoot_resolved t cwd _ absolute (free.cancels _) found resolved inside
        _ (realpath_nasRoot free)
      rwa [show pathNames (locText nasNames) = nasNames by decide] at names
    rcases under with ⟨rest, parts⟩
    cases rest with
    | nil =>
        rw [List.append_nil] at parts
        rcases condition with empty | other | missing
        · rw [empty] at acted
          cases acted
        · exact absurd (place.symm.trans parts.symm) other
        · rw [resolved] at missing
          cases missing
    | cons name rest => exact ⟨name, rest, by rw [resolved, parts]⟩

def plainTree : Tree where
  entries :=
    [(["srv".toList], .dir), (["srv".toList, "nas".toList], .dir),
      (["srv".toList, "nas".toList, "docs".toList], .dir)]
  wellFormed := by decide +kernel

theorem plainTree_linkFree : plainTree.LinkFree := by
  intro loc target entry
  by_cases root : loc = []
  · rw [root] at entry
    cases entry
  · have inside := plainTree.lstat_entry entry root
    simp [plainTree] at inside

/-- The absolute path of the store, in the field for a path in it. -/
theorem store_removed : ¬∀ (t : Tree), t.LinkFree → ∀ cwd path, RemovesBelowRoot t cwd path := by
  intro all
  obtain ⟨name, rest, resolved⟩ := all plainTree plainTree_linkFree "/".toList "/srv/nas".toList
    "/srv/nas".toList (by decide +kernel)
  have root : plainTree.resolve "/srv/nas".toList = some nasNames := by decide +kernel
  rw [root, Option.some.injEq] at resolved
  have lengths := congrArg List.length resolved
  simp only [List.length_append, List.length_cons] at lengths
  omega

theorem removes_below_root_docs :
    normalNames "x/../docs/".toList ≠ nasNames ∧
      RemovesBelowRoot plainTree "/".toList "x/../docs/".toList := by
  have other : normalNames "x/../docs/".toList ≠ nasNames := by decide +kernel
  exact ⟨other, (removes_below_root_iff plainTree plainTree_linkFree _ _).mpr (.inr (.inl other))⟩

end SmolNas.App
