import SmolNas.Fs.Listing
import SmolNas.Fs.MakeDirs

/-! Changes of a tree: a file that is written, and `rm -rf`. -/

namespace SmolNas.Fs

open Py

namespace Tree

variable (t : Tree)

section Write

theorem wellFormed_file {dir : Loc} {name : Str} (isDir : t.lstat dir = some .dir)
    (valid : validName name = true) :
    ∀ entry ∈ t.entries ++ [(dir ++ [name], Node.file)], entry.1 ≠ [] ∧
      (∀ part ∈ entry.1, validName part = true) ∧
        lookup (t.entries ++ [(dir ++ [name], Node.file)]) entry.1.dropLast = some .dir := by
  intro entry member
  rcases List.mem_append.mp member with old | new
  · rcases t.wellFormed entry old with ⟨below, names, parent⟩
    exact ⟨below, names, lookup_append parent _⟩
  · rw [List.mem_singleton.mp new, List.dropLast_concat]
    refine ⟨by simp, ?_, lookup_append isDir _⟩
    intro part inside
    rcases List.mem_append.mp inside with upper | last
    · exact t.lstat_valid isDir part upper
    · rw [List.mem_singleton.mp last]
      exact valid

def addFile (dir : Loc) (name : Str) : Tree :=
  if ok : t.lstat dir = some .dir ∧ validName name = true ∧ t.lstat (dir ++ [name]) = none then
    ⟨t.entries ++ [(dir ++ [name], .file)], t.wellFormed_file ok.1 ok.2.1⟩
  else t

def touch (place : Loc) : Tree :=
  match place.getLast? with
  | none => t
  | some name => t.addFile place.dropLast name

theorem touch_concat (dir : Loc) (name : Str) : t.touch (dir ++ [name]) = t.addFile dir name := by
  rw [touch, List.getLast?_concat, List.dropLast_concat]

variable {t}

theorem lstat_addFile {dir : Loc} {name : Str} (isDir : t.lstat dir = some .dir)
    (valid : validName name = true)
    (free : t.lstat (dir ++ [name]) = none ∨ t.lstat (dir ++ [name]) = some .file) (loc : Loc) :
    (t.addFile dir name).lstat loc = if loc = dir ++ [name] then some .file else t.lstat loc := by
  unfold addFile
  rcases free with missing | present
  · rw [dif_pos ⟨isDir, valid, missing⟩]
    cases found : t.lstat loc with
    | some node =>
        have other : loc ≠ dir ++ [name] := by
          intro same
          rw [same, missing] at found
          cases found
        rw [if_neg other]
        exact lookup_append found _
    | none => exact lookup_concat found _ _
  · rw [dif_neg (by simp [present])]
    split
    next same => rw [same, present]
    next => rfl

end Write

section Remove

/-- Whether a removal below `target` keeps a location, where it leaves some of them behind.
A directory that is not empty stays. -/
def spared (target : Loc) (left : List Loc) (loc : Loc) : Bool :=
  !target.isPrefixOf loc || left.any (loc.isPrefixOf ·)

theorem spared_dropLast {target : Loc} {left : List Loc} {loc : Loc}
    (kept : spared target left loc = true) : spared target left loc.dropLast = true := by
  rw [spared, Bool.or_eq_true, Bool.not_eq_true', ← Bool.not_eq_true,
    List.isPrefixOf_iff_prefix] at kept ⊢
  rcases kept with outside | behind
  · exact .inl fun below => outside (below.trans (List.dropLast_prefix loc))
  · rw [List.any_eq_true] at behind ⊢
    rcases behind with ⟨rest, member, below⟩
    refine .inr ⟨rest, member, List.isPrefixOf_iff_prefix.mpr ?_⟩
    exact (List.dropLast_prefix loc).trans (List.isPrefixOf_iff_prefix.mp below)

theorem lookup_spared (entries : List (Loc × Node)) (target : Loc) (left : List Loc) (loc : Loc) :
    (entries.filter fun e => spared target left e.1).lookup loc =
      if spared target left loc then entries.lookup loc else none := by
  induction entries with
  | nil => split <;> rfl
  | cons e entries ih =>
      rw [List.filter_cons, List.lookup_cons]
      by_cases same : loc = e.1
      · subst same
        rw [beq_self_eq_true]
        split
        · rw [List.lookup_cons, beq_self_eq_true]
        next gone => rw [ih, if_neg gone]
      · rw [beq_eq_false_iff_ne.mpr same]
        split
        · rw [List.lookup_cons, beq_eq_false_iff_ne.mpr same]
          exact ih
        · exact ih

theorem wellFormed_spared (target : Loc) (left : List Loc) :
    ∀ entry ∈ t.entries.filter fun e => spared target left e.1, entry.1 ≠ [] ∧
      (∀ part ∈ entry.1, validName part = true) ∧
        lookup (t.entries.filter fun e => spared target left e.1) entry.1.dropLast = some .dir := by
  intro entry member
  rcases List.mem_filter.mp member with ⟨inside, kept⟩
  rcases t.wellFormed entry inside with ⟨below, names, parent⟩
  refine ⟨below, names, ?_⟩
  unfold lookup at parent ⊢
  split
  next => rfl
  next deeper =>
    rw [if_neg deeper] at parent
    rw [lookup_spared, if_pos (spared_dropLast kept), parent]

/-- `rm -rf` of a location, with what it leaves behind where it fails. -/
def removeAll (target : Loc) (left : List Loc) : Tree :=
  ⟨t.entries.filter fun e => spared target left e.1, t.wellFormed_spared target left⟩

theorem lstat_removeAll {target : Loc} (below : target ≠ []) (left : List Loc) (loc : Loc) :
    (t.removeAll target left).lstat loc =
      if spared target left loc then t.lstat loc else none := by
  unfold lstat lookup
  by_cases root : loc = []
  · have kept : spared target left [] = true := by
      rw [spared, Bool.or_eq_true, Bool.not_eq_true', ← Bool.not_eq_true,
        List.isPrefixOf_iff_prefix, List.prefix_nil]
      exact .inl below
    rw [if_pos root, if_pos root, root, if_pos kept]
  · rw [if_neg root, if_neg root]
    exact lookup_spared t.entries target left loc

/-- The object that `rm` removes for a path: a last name that is `.` or `..` and the root
directory are refused, a link is removed itself, and a link before a slash is refused. -/
def removedAt (p : Str) : Option Loc :=
  match (pathNames p).getLast? with
  | none => none
  | some name =>
      if name = curdir ∨ name = pardir then none
      else
        match t.walk maxLinks [] (pathNames p).dropLast with
        | none => none
        | some (dir, _) =>
            match t.lstat (dir ++ [name]) with
            | none => none
            | some (.link _) => if endswith p ['/'] then none else some (dir ++ [name])
            | some _ => some (dir ++ [name])

end Remove

section Below

variable {t} {root : Loc} {names : List Str}

theorem walk_below_names (free : t.LinkFreeBelow root)
    (valid : ∀ name ∈ names, validName name = true) {budget : Nat} {m : Loc × Nat}
    (isDir : t.lstat root = some .dir) (walked : t.walk budget root names = some m) :
    m.1 = root ++ names ∧ (t.lstat (root ++ names)).isSome = true := by
  induction names generalizing root budget with
  | nil =>
      rw [walk_nil, Option.some.injEq] at walked
      rw [← walked, List.append_nil, isDir]
      exact ⟨rfl, rfl⟩
  | cons name names ih =>
      have proper := validName_spec (valid name List.mem_cons_self)
      have later := fun other member => valid other (List.mem_cons_of_mem name member)
      rw [walk_cons, if_neg (by simp [isDir]), if_neg (by simp [proper.2.1]),
        if_neg proper.2.2.1] at walked
      cases entry : t.lstat (root ++ [name]) with
      | none =>
          rw [entry] at walked
          cases walked
      | some node =>
          rw [entry] at walked
          cases node with
          | dir =>
              have place := ih (free.descend [name]) later entry walked
              rwa [List.append_assoc] at place
          | file =>
              cases names with
              | nil =>
                  rw [walk_nil, Option.some.injEq] at walked
                  rw [← walked, entry]
                  exact ⟨rfl, rfl⟩
              | cons next names =>
                  dsimp only at walked
                  rw [walk_cons, if_pos (by simp [entry])] at walked
                  cases walked
          | link target => exact absurd entry (free [name] target)

end Below

end Tree

end SmolNas.Fs
