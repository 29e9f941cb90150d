import Mathlib.Data.List.Dedup
import SmolNas.Fs.LinkFree

/-! The entries of a directory, and the way down from a directory below which there are no
links. -/

namespace SmolNas.Fs

open Py

namespace Tree

variable (t : Tree)

/-- `os.scandir`: the names in a directory, in some order. -/
def scandir (loc : Loc) : List Str :=
  (t.entries.filterMap fun entry =>
    if entry.1.dropLast = loc then entry.1.getLast? else none).dedup

def LinkFreeBelow (root : Loc) : Prop :=
  ∀ names target, t.lstat (root ++ names) ≠ some (.link target)

variable {t} {root : Loc} {names : List Str}

theorem mem_scandir {loc : Loc} {name : Str} :
    name ∈ t.scandir loc ↔ (t.lstat (loc ++ [name])).isSome = true := by
  rw [scandir, List.mem_dedup, List.mem_filterMap]
  constructor
  · rintro ⟨entry, member, last⟩
    split at last
    next front =>
      have whole : loc ++ [name] = entry.1 := by
        rw [← front]
        exact List.dropLast_append_getLast? name last
      rw [whole, lstat, lookup, if_neg (t.wellFormed entry member).1, List.lookup_isSome_iff]
      exact ⟨entry, member, beq_self_eq_true _⟩
    next => cases last
  · intro found
    rcases Option.isSome_iff_exists.mp found with ⟨node, entry⟩
    refine ⟨(loc ++ [name], node), t.lstat_entry entry (by simp), ?_⟩
    rw [List.dropLast_concat, if_pos rfl, List.getLast?_concat]

theorem nodup_scandir (loc : Loc) : (t.scandir loc).Nodup := List.nodup_dedup _

theorem lstat_above {loc : Loc} {name : Str} {rest : Loc} {node : Node}
    (found : t.lstat (loc ++ name :: rest) = some node) : t.lstat loc = some .dir := by
  induction rest using List.reverseRecOn generalizing node with
  | nil => exact t.lstat_parent found
  | append_singleton rest last ih =>
      rw [← List.cons_append, ← List.append_assoc] at found
      exact ih (t.lstat_parent found)

theorem lstat_base {loc rest : Loc} (found : t.lstat (loc ++ rest) = some .dir) :
    t.lstat loc = some .dir := by
  cases rest with
  | nil => rwa [List.append_nil] at found
  | cons name rest => exact lstat_above found

theorem linkFreeBelow_of_entries (plain : ∀ entry ∈ t.entries, entry.2 = .dir ∨ entry.2 = .file)
    (root : Loc) : t.LinkFreeBelow root := by
  intro names target found
  by_cases top : root ++ names = []
  · rw [top] at found
    cases found
  · rcases plain _ (t.lstat_entry found top) with same | same
    · cases same
    · cases same

theorem LinkFreeBelow.descend (free : t.LinkFreeBelow root) (names : List Str) :
    t.LinkFreeBelow (root ++ names) := by
  intro rest target
  rw [List.append_assoc]
  exact free (names ++ rest) target

theorem walk_below (free : t.LinkFreeBelow root) (budget : Nat) {node : Node}
    (found : t.lstat (root ++ names) = some node) :
    t.walk budget root names = some (root ++ names, budget) := by
  induction names using List.reverseRecOn generalizing node with
  | nil => rw [walk_nil, List.append_nil]
  | append_singleton names name ih =>
      have valid := validName_spec (t.lstat_valid found name (by simp))
      rw [← List.append_assoc] at found
      have parent := t.lstat_parent found
      rw [walk_append, ih parent, Option.bind_some, walk_cons, if_neg (by simp [parent]),
        if_neg (by simp [valid.2.1]), if_neg valid.2.2.1, found]
      cases node with
      | dir => rw [walk_nil, List.append_assoc]
      | file => rw [walk_nil, List.append_assoc]
      | link target =>
          rw [List.append_assoc] at found
          exact absurd found (free (names ++ [name]) target)

theorem LinkFreeBelow.linkFree (free : t.LinkFreeBelow []) : t.LinkFree := free

end Tree

end SmolNas.Fs
