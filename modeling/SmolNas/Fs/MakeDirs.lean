import SmolNas.Fs.Realpath

/-! `mkdir -p`. It adds directories where there was nothing and leaves every link as it is,
so that `realpath`, which only asks for links, answers the same before and after it. -/

namespace SmolNas.Fs

open Py

theorem lookup_append {entries : List (Loc × Node)} {loc : Loc} {node : Node}
    (found : lookup entries loc = some node) (more : List (Loc × Node)) :
    lookup (entries ++ more) loc = some node := by
  unfold lookup at found ⊢
  split at found
  next root => rw [if_pos root, found]
  next below => rw [if_neg below, List.lookup_append, found, Option.some_or]

theorem lookup_concat {entries : List (Loc × Node)} {loc : Loc}
    (missing : lookup entries loc = none) (added : Loc) (node : Node) :
    lookup (entries ++ [(added, node)]) loc = if loc = added then some node else none := by
  unfold lookup at missing ⊢
  split at missing
  next => cases missing
  next below =>
    rw [if_neg below, List.lookup_append, missing, Option.none_or, List.lookup_cons]
    by_cases same : loc = added
    · rw [if_pos same, same, beq_self_eq_true]
    · rw [if_neg same, beq_eq_false_iff_ne.mpr same]
      rfl

namespace Tree

variable (t : Tree)

theorem wellFormed_concat {dir : Loc} {name : Str} (isDir : t.lstat dir = some .dir)
    (valid : validName name = true) :
    ∀ entry ∈ t.entries ++ [(dir ++ [name], Node.dir)], entry.1 ≠ [] ∧
      (∀ part ∈ entry.1, validName part = true) ∧
        lookup (t.entries ++ [(dir ++ [name], Node.dir)]) entry.1.dropLast = some .dir := by
  intro entry member
  rcases List.mem_append.mp member with old | new
  · rcases t.wellFormed entry old with ⟨below, names, parent⟩
    exact ⟨below, names, lookup_append parent _⟩
  · rw [List.mem_singleton.mp new, List.dropLast_concat]
    refine ⟨by simp, ?_, lookup_append isDir _⟩
    intro part inside
    rcases List.mem_append.mp inside with upper | last
    · exact t.lstat_valid isDir part upper
    · rw [List.mem_singleton.mp last]
      exact valid

/-- The system call `mkdir`; where it fails the tree stays as it is. -/
def makeDir (dir : Loc) (name : Str) : Tree :=
  if ok : t.lstat dir = some .dir ∧ validName name = true ∧ t.lstat (dir ++ [name]) = none then
    ⟨t.entries ++ [(dir ++ [name], .dir)], t.wellFormed_concat ok.1 ok.2.1⟩
  else t

/-- `mkdir` of the path with these components and one more. -/
def makeAt (done : List Str) (comp : Str) : Tree :=
  match t.walk maxLinks [] done with
  | none => t
  | some (dir, _) => t.makeDir dir comp

def makeEach : Tree → List Str → List Str → Tree
  | t, _, [] => t
  | t, done, comp :: comps => makeEach (t.makeAt done comp) (done ++ [comp]) comps

/-- `mkdir -p` makes the path name by name. -/
def makeDirs (p : Str) : Tree := t.makeEach [] (components p)

def SameLinks (other : Tree) : Prop :=
  ∀ loc target, t.lstat loc = some (.link target) ↔ other.lstat loc = some (.link target)

theorem SameLinks.refl : t.SameLinks t := fun _ _ => Iff.rfl

variable {t}

theorem SameLinks.trans {second third : Tree} (first : t.SameLinks second)
    (later : second.SameLinks third) : t.SameLinks third :=
  fun loc target => (first loc target).trans (later loc target)

variable (t)

theorem makeDir_sameLinks (dir : Loc) (name : Str) : t.SameLinks (t.makeDir dir name) := by
  unfold makeDir
  split
  next ok =>
    intro loc target
    cases found : t.lstat loc with
    | some node =>
        have kept := lookup_append found [(dir ++ [name], Node.dir)]
        unfold lstat
        rw [kept]
    | none =>
        have added := lookup_concat found (dir ++ [name]) .dir
        unfold lstat
        rw [added]
        split
        · simp
        · simp
  next => exact SameLinks.refl t

theorem makeEach_sameLinks (done comps : List Str) : t.SameLinks (t.makeEach done comps) := by
  induction comps generalizing t done with
  | nil => exact SameLinks.refl t
  | cons comp comps ih =>
      have step : t.SameLinks (t.makeAt done comp) := by
        unfold makeAt
        split
        · exact SameLinks.refl t
        · exact t.makeDir_sameLinks _ comp
      exact step.trans (ih (t.makeAt done comp) (done ++ [comp]))

theorem makeDirs_sameLinks (p : Str) : t.SameLinks (t.makeDirs p) :=
  t.makeEach_sameLinks [] (components p)

section Realpath

/-- The loop asks the tree for nothing but links, and follows only those. -/
theorem joinReal_congr {other : Tree} (same : t.SameLinks other) {one two : Loc → Loc → Str → Real}
    (agree : ∀ loc comp target, t.lstat (loc ++ [comp]) = some (.link target) →
      one (loc ++ [comp]) loc target = two (loc ++ [comp]) loc target)
    (loc : Loc) (comps : List Str) : t.joinReal one loc comps = other.joinReal two loc comps := by
  induction comps generalizing loc with
  | nil => rfl
  | cons comp comps ih =>
      rw [joinReal, joinReal]
      split
      · exact ih loc
      split
      · exact ih loc.dropLast
      by_cases link : ∃ target, t.lstat (loc ++ [comp]) = some (.link target)
      · rcases link with ⟨target, entry⟩
        rw [entry, (same _ _).mp entry]
        dsimp only
        rw [agree loc comp target entry]
        cases two (loc ++ [comp]) loc target with
        | ok found => exact ih found
        | loop path => rfl
      · split
        next target entry => exact absurd ⟨target, entry⟩ link
        next =>
          split
          next target entry => exact absurd ⟨target, (same _ _).mpr entry⟩ link
          next => exact ih (loc ++ [comp])

theorem realFrom_sameLinks {other : Tree} (same : t.SameLinks other) (depth : Nat)
    (pending : List Loc) (loc : Loc) (comps : List Str) :
    t.realFrom depth pending loc comps = other.realFrom depth pending loc comps := by
  induction depth generalizing pending loc comps with
  | zero => rfl
  | succ depth ih =>
      rw [realFrom, realFrom]
      apply t.joinReal_congr same
      intro place comp target entry
      rw [ih]

theorem realFrom_depth (extra depth : Nat) (pending : List Loc) (loc : Loc) (comps : List Str)
    (nodup : pending.Nodup) (entries : ∀ p ∈ pending, p ∈ t.entries.map Prod.fst)
    (deep : t.entries.length + 1 ≤ depth + pending.length) :
    t.realFrom (depth + extra) pending loc comps = t.realFrom depth pending loc comps := by
  have bound := (List.subperm_of_subset nodup entries).length_le
  rw [List.length_map] at bound
  induction depth generalizing pending loc comps with
  | zero => omega
  | succ depth ih =>
      rw [Nat.add_right_comm, realFrom, realFrom]
      apply t.joinReal_congr (SameLinks.refl t)
      intro place comp target entry
      split
      next => rfl
      next fresh =>
        have grown : ∀ p ∈ (place ++ [comp]) :: pending, p ∈ t.entries.map Prod.fst := by
          intro p member
          rcases List.mem_cons.mp member with rfl | member
          · exact t.lstat_mem entry (by simp)
          · exact entries p member
        have distinct := List.nodup_cons.mpr ⟨fresh, nodup⟩
        have fits := (List.subperm_of_subset distinct grown).length_le
        rw [List.length_map] at fits
        exact ih _ _ _ distinct grown (by rw [List.length_cons]; omega) fits

theorem realFrom_start (extra : Nat) (comps : List Str) :
    t.realFrom (t.entries.length + 1 + extra) [] [] comps =
      t.realFrom (t.entries.length + 1) [] [] comps :=
  t.realFrom_depth extra _ [] [] comps List.nodup_nil (by simp) (by simp)

theorem realFrom_tree {other : Tree} (same : t.SameLinks other) (comps : List Str) :
    t.realFrom (t.entries.length + 1) [] [] comps =
      other.realFrom (other.entries.length + 1) [] [] comps := by
  calc
    _ = t.realFrom (t.entries.length + 1 + other.entries.length) [] [] comps :=
      (t.realFrom_start _ _).symm
    _ = other.realFrom (t.entries.length + 1 + other.entries.length) [] [] comps :=
      t.realFrom_sameLinks same _ _ _ _
    _ = other.realFrom (other.entries.length + 1 + t.entries.length) [] [] comps := by
      rw [Nat.add_right_comm, Nat.add_comm t.entries.length, Nat.add_right_comm]
    _ = _ := other.realFrom_start _ _

theorem realpath_sameLinks {other : Tree} (same : t.SameLinks other) (p : Str) :
    t.realpath p = other.realpath p := by
  rw [realpath, realpath, t.realFrom_tree same]

/-- Whether these names lead to a link. What is missing on the way counts as a directory,
since `mkdir -p` makes it one. -/
def leadsToLink (names : List Str) : Bool :=
  match names.getLast?, t.realFrom (t.entries.length + 1) [] [] names.dropLast with
  | some name, .ok dir =>
      match t.lstat (dir ++ [name]) with
      | some (.link _) => true
      | _ => false
  | _, _ => false

theorem isLink_made {other : Tree} (same : t.SameLinks other) {names : List Str}
    (plain : t.leadsToLink names = false) : other.isLink names = false := by
  cases names using List.reverseRecOn with
  | nil => rfl
  | append_singleton names name =>
      rw [leadsToLink, List.getLast?_concat, List.dropLast_concat, t.realFrom_tree same] at plain
      rw [isLink, List.getLast?_concat, List.dropLast_concat]
      cases walked : other.walk maxLinks [] names with
      | none => rfl
      | some dir =>
          rw [other.realFrom_walk walked] at plain
          dsimp only at plain ⊢
          split
          next target entry =>
            rw [(same _ _).mpr entry] at plain
            exact plain
          next => rfl

end Realpath

end Tree

end SmolNas.Fs
