import SmolNas.Fs.Path

/-! A directory tree with symbolic links and path resolution in the kernel.

The kernel walks a path component by component. A link is replaced by the
components of its target before anything after it is read, so `..` leaves the
directory that was really entered. A walk may follow at most 40 links. -/

namespace SmolNas.Fs

open Py

abbrev Loc := List Str

inductive Node where
  | dir
  | file
  | link (target : Str)
  deriving DecidableEq, Repr

def lookup (entries : List (Loc × Node)) (loc : Loc) : Option Node :=
  if loc = [] then some .dir else entries.lookup loc

/-- The entries below the root directory, each in a directory of the tree and
under a name that a directory can hold. -/
structure Tree where
  entries : List (Loc × Node)
  wellFormed : ∀ entry ∈ entries, entry.1 ≠ [] ∧ (∀ name ∈ entry.1, validName name = true) ∧
    lookup entries entry.1.dropLast = some .dir

namespace Tree

variable (t : Tree)

def lstat (loc : Loc) : Option Node := lookup t.entries loc

def base (dir : Loc) (target : Str) : Loc := if isabs target then [] else dir

def scan (budget : Nat) (follow : Loc → Str → List Str → Option (Loc × Nat)) :
    Loc → List Str → Option (Loc × Nat)
  | loc, [] => some (loc, budget)
  | loc, comp :: comps =>
      if t.lstat loc ≠ some .dir then none
      else if isHere comp then scan budget follow loc comps
      else if comp = pardir then scan budget follow loc.dropLast comps
      else
        match t.lstat (loc ++ [comp]) with
        | none => none
        | some (.link target) => follow loc target comps
        | some _ => scan budget follow (loc ++ [comp]) comps

/-- Resolves components from a location, following at most `budget` links; the
result has the links that are left. -/
def walk : Nat → Loc → List Str → Option (Loc × Nat)
  | 0 => t.scan 0 fun _ _ _ => none
  | budget + 1 => t.scan (budget + 1) fun loc target comps =>
      walk budget (base loc target) (components target ++ comps)

def maxLinks : Nat := 40

def resolve (p : Str) : Option Loc := (t.walk maxLinks [] (components p)).map Prod.fst

@[simp] theorem walk_nil (budget : Nat) (loc : Loc) :
    t.walk budget loc [] = some (loc, budget) := by
  cases budget <;> rfl

theorem walk_cons (budget : Nat) (loc : Loc) (comp : Str) (comps : List Str) :
    t.walk budget loc (comp :: comps) =
      if t.lstat loc ≠ some .dir then none
      else if isHere comp then t.walk budget loc comps
      else if comp = pardir then t.walk budget loc.dropLast comps
      else
        match t.lstat (loc ++ [comp]) with
        | none => none
        | some (.link target) =>
            match budget with
            | 0 => none
            | left + 1 => t.walk left (base loc target) (components target ++ comps)
        | some _ => t.walk budget (loc ++ [comp]) comps := by
  cases budget <;> rfl

inductive Step (budget : Nat) (loc : Loc) (comp : Str) (comps : List Str) :
    Option (Loc × Nat) → Prop
  | here (isDir : t.lstat loc = some .dir) (same : isHere comp = true) :
      Step budget loc comp comps (t.walk budget loc comps)
  | parent (isDir : t.lstat loc = some .dir) (up : comp = pardir) :
      Step budget loc comp comps (t.walk budget loc.dropLast comps)
  | enter (isDir : t.lstat loc = some .dir) (proper : isHere comp = false ∧ comp ≠ pardir)
      (node : Node) (entry : t.lstat (loc ++ [comp]) = some node)
      (plain : ∀ target, node ≠ .link target) :
      Step budget loc comp comps (t.walk budget (loc ++ [comp]) comps)
  | follow (isDir : t.lstat loc = some .dir) (proper : isHere comp = false ∧ comp ≠ pardir)
      (target : Str) (entry : t.lstat (loc ++ [comp]) = some (.link target))
      (left : Nat) (spent : budget = left + 1) :
      Step budget loc comp comps (t.walk left (base loc target) (components target ++ comps))
  | fail : Step budget loc comp comps none

theorem walk_step (budget : Nat) (loc : Loc) (comp : Str) (comps : List Str) :
    t.Step budget loc comp comps (t.walk budget loc (comp :: comps)) := by
  rw [walk_cons]
  by_cases isDir : t.lstat loc = some .dir
  · rw [if_neg (by simp [isDir])]
    by_cases same : isHere comp = true
    · rw [if_pos same]
      exact .here isDir same
    · rw [if_neg same]
      by_cases up : comp = pardir
      · rw [if_pos up]
        exact .parent isDir up
      · rw [if_neg up]
        have proper : isHere comp = false ∧ comp ≠ pardir := ⟨by simpa using same, up⟩
        cases entry : t.lstat (loc ++ [comp]) with
        | none => exact .fail
        | some node =>
            cases node with
            | dir => exact .enter isDir proper .dir entry (by simp)
            | file => exact .enter isDir proper .file entry (by simp)
            | link target =>
                cases budget with
                | zero => exact .fail
                | succ left => exact .follow isDir proper target entry left rfl
  · rw [if_pos isDir]
    exact .fail

theorem walk_append (budget : Nat) (loc : Loc) (xs ys : List Str) :
    t.walk budget loc (xs ++ ys) =
      (t.walk budget loc xs).bind fun m => t.walk m.2 m.1 ys := by
  induction budget using Nat.strong_induction_on generalizing loc xs with
  | _ budget ih =>
      induction xs generalizing loc with
      | nil => simp
      | cons comp xs ihx =>
          rw [List.cons_append, walk_cons, walk_cons]
          split
          · rfl
          split
          · exact ihx loc
          split
          · exact ihx loc.dropLast
          cases t.lstat (loc ++ [comp]) with
          | none => rfl
          | some node =>
              cases node with
              | dir => exact ihx _
              | file => exact ihx _
              | link target =>
                  cases budget with
                  | zero => rfl
                  | succ left =>
                      dsimp only
                      rw [← List.append_assoc]
                      exact ih left (Nat.lt_succ_self left) _ _

theorem walk_cost (budget : Nat) (loc : Loc) (comps : List Str) (m : Loc × Nat)
    (found : t.walk budget loc comps = some m) :
    ∃ used, budget = used + m.2 ∧ ∀ left, t.walk (used + left) loc comps = some (m.1, left) := by
  induction budget using Nat.strong_induction_on generalizing loc comps with
  | _ budget ih =>
      induction comps generalizing loc with
      | nil =>
          rw [walk_nil, Option.some.injEq] at found
          subst found
          exact ⟨0, by simp, by simp⟩
      | cons comp comps ihc =>
          have step := t.walk_step budget loc comp comps
          rw [found] at step
          generalize result : some m = outcome at step
          cases step with
          | here isDir same =>
              rcases ihc loc result.symm with ⟨used, sum, walked⟩
              refine ⟨used, sum, fun left => ?_⟩
              rw [walk_cons, if_neg (by simp [isDir]), if_pos same, walked]
          | parent isDir up =>
              subst up
              rcases ihc loc.dropLast result.symm with ⟨used, sum, walked⟩
              refine ⟨used, sum, fun left => ?_⟩
              rw [walk_cons, if_neg (by simp [isDir]), if_neg (by decide), if_pos rfl, walked]
          | enter isDir proper node entry plain =>
              rcases ihc _ result.symm with ⟨used, sum, walked⟩
              refine ⟨used, sum, fun left => ?_⟩
              rw [walk_cons, if_neg (by simp [isDir]), if_neg (by simp [proper.1]),
                if_neg proper.2, entry]
              cases node with
              | dir => exact walked left
              | file => exact walked left
              | link target => exact absurd rfl (plain target)
          | follow isDir proper target entry left spent =>
              subst spent
              rcases ih left (Nat.lt_succ_self left) _ _ result.symm with ⟨used, sum, walked⟩
              refine ⟨used + 1, by omega, fun left => ?_⟩
              rw [walk_cons, if_neg (by simp [isDir]), if_neg (by simp [proper.1]),
                if_neg proper.2, entry, Nat.add_right_comm]
              exact walked left
          | fail => cases result

theorem walk_mono (extra budget : Nat) (loc : Loc) (comps : List Str) (m : Loc × Nat)
    (found : t.walk budget loc comps = some m) :
    t.walk (budget + extra) loc comps = some (m.1, m.2 + extra) := by
  rcases t.walk_cost budget loc comps m found with ⟨used, sum, walked⟩
  rw [sum, Nat.add_assoc]
  exact walked (m.2 + extra)

/-- `Costs used loc comps found`: the walk ends at `found` after `used` links. -/
def Costs (used : Nat) (loc : Loc) (comps : List Str) (found : Loc) : Prop :=
  t.walk used loc comps = some (found, 0)

theorem costs_of_walk {budget : Nat} {loc : Loc} {comps : List Str} {m : Loc × Nat}
    (found : t.walk budget loc comps = some m) : ∃ used, t.Costs used loc comps m.1 := by
  rcases t.walk_cost budget loc comps m found with ⟨used, -, walked⟩
  exact ⟨used, walked 0⟩

theorem costs_unique {first second : Nat} {loc : Loc} {comps : List Str} {a b : Loc}
    (one : t.Costs first loc comps a) (two : t.Costs second loc comps b) : first = second := by
  rcases Nat.le_total first second with le | le
  · rcases Nat.exists_eq_add_of_le le with ⟨extra, rfl⟩
    have more := t.walk_mono extra first loc comps _ one
    rw [two, Option.some.injEq, Prod.mk.injEq] at more
    omega
  · rcases Nat.exists_eq_add_of_le le with ⟨extra, rfl⟩
    have more := t.walk_mono extra second loc comps _ two
    rw [one, Option.some.injEq, Prod.mk.injEq] at more
    omega

theorem costs_append {used : Nat} {loc : Loc} {xs ys : List Str} {found : Loc}
    (whole : t.Costs used loc (xs ++ ys) found) :
    ∃ first second mid, used = first + second ∧ t.Costs first loc xs mid ∧
      t.Costs second mid ys found := by
  unfold Costs at whole
  rw [walk_append] at whole
  rcases Option.bind_eq_some_iff.mp whole with ⟨m, front, rest⟩
  rcases t.walk_cost used loc xs m front with ⟨first, sum, walked⟩
  exact ⟨first, m.2, m.1, sum, walked 0, rest⟩

theorem lstat_entry {loc : Loc} {node : Node} (found : t.lstat loc = some node)
    (below : loc ≠ []) : (loc, node) ∈ t.entries := by
  rw [lstat, lookup, if_neg below] at found
  rcases List.lookup_eq_some_iff.mp found with ⟨before, after, equality, -⟩
  rw [equality]
  simp

theorem lstat_valid {loc : Loc} {node : Node} (found : t.lstat loc = some node) :
    ∀ name ∈ loc, validName name = true := by
  by_cases root : loc = []
  · simp [root]
  · exact (t.wellFormed (loc, node) (t.lstat_entry found root)).2.1

theorem lstat_parent {dir : Loc} {name : Str} {node : Node}
    (found : t.lstat (dir ++ [name]) = some node) : t.lstat dir = some .dir := by
  have parent := (t.wellFormed _ (t.lstat_entry found (by simp))).2.2
  rwa [List.dropLast_concat] at parent

end Tree

end SmolNas.Fs
