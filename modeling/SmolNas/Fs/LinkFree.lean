import SmolNas.Fs.Realpath

/-! Trees without symbolic links: there a path denotes its lexical normal form. -/

namespace SmolNas.Fs

open Py

namespace Tree

variable (t : Tree)

def LinkFree : Prop := ∀ loc target, t.lstat loc ≠ some (.link target)

/-- The place that one component of a path leads to, whether or not there is an object. -/
def enter (loc : Loc) (comp : Str) : Loc :=
  if comp = curdir then loc else if comp = pardir then loc.dropLast else loc ++ [comp]

/-- Where the walk for an absolute path ends. Every component before the last one has to be
a directory that exists; the last may be any object or none. -/
def walkEnd (p : Str) : Option Loc :=
  match (pathNames p).reverse with
  | [] => some []
  | last :: front => do
      let m ← t.walk maxLinks [] front.reverse
      if t.lstat m.1 = some .dir then some (enter m.1 last) else none

variable {t}

theorem enter_eq_normStep {loc : Loc} {comp : Str} (nonempty : comp ≠ []) (proper : pardir ∉ loc) :
    enter loc comp = normStep true loc comp := by
  unfold enter normStep
  by_cases here : comp = curdir
  · rw [if_pos here, if_pos (by simp [isHere, here])]
  · have named : ¬isHere comp = true := by simp [isHere, nonempty, here]
    rw [if_neg here, if_neg named]
    by_cases up : comp = pardir
    · have last : loc.getLast? ≠ some pardir := fun last => proper (List.mem_of_getLast? last)
      rw [if_pos up, if_neg (by simp [up, last])]
    · rw [if_neg up, if_pos (.inl up)]

theorem LinkFree.cancels (free : t.LinkFree) (comps : List Str) : t.CancelsNoLink comps := by
  intro i _ _
  unfold isLink
  split
  next name dir _ _ _ =>
    split
    next target entry => exact absurd entry (free _ target)
    next => rfl
  next => rfl

theorem LinkFree.walk_names (free : t.LinkFree) {budget : Nat} {loc : Loc} {names : List Str}
    {m : Loc × Nat} (proper : ∀ name ∈ names, isHere name = false ∧ name ≠ pardir)
    (walked : t.walk budget loc names = some m) : m.1 = loc ++ names := by
  induction names generalizing loc budget with
  | nil =>
      rw [walk_nil, Option.some.injEq] at walked
      rw [← walked, List.append_nil]
  | cons name names ih =>
      rw [← List.singleton_append, walk_append] at walked
      rcases Option.bind_eq_some_iff.mp walked with ⟨mid, first, rest⟩
      have place := t.walk_single (proper name List.mem_cons_self) (free _) first
      rw [place] at rest
      have later := ih (fun other member => proper other (List.mem_cons_of_mem _ member)) rest
      rw [later, List.append_assoc, List.singleton_append]

theorem LinkFree.walk_eq (free : t.LinkFree) {comps : List Str} {m : Loc × Nat}
    (walked : t.walk maxLinks [] comps = some m) : m.1 = normComponents true comps := by
  rcases t.walk_normComponents comps (free.cancels _) m walked with ⟨left, -, normal⟩
  have place := free.walk_names (normComponents_proper comps) normal
  rw [List.nil_append] at place
  exact place

/-- What the kernel finds for a path is its lexical normal form. -/
theorem LinkFree.resolve_eq (free : t.LinkFree) {p : Str} {found : Loc}
    (resolved : t.resolve p = some found) : found = normComponents true (components p) := by
  rcases Option.map_eq_some_iff.mp resolved with ⟨m, walked, same⟩
  rw [← same]
  exact free.walk_eq walked

theorem LinkFree.walkEnd_eq (free : t.LinkFree) {p : Str} {found : Loc}
    (walked : t.walkEnd p = some found) : found = normComponents true (components p) := by
  rw [← normComponents_pathNames]
  unfold walkEnd at walked
  split at walked
  next empty =>
    rw [List.reverse_eq_nil_iff.mp empty]
    rw [Option.some.injEq] at walked
    exact walked.symm
  next last front names =>
    rcases Option.bind_eq_some_iff.mp walked with ⟨m, before, entered⟩
    have whole : pathNames p = front.reverse ++ [last] := by
      rw [← List.reverse_reverse (pathNames p), names, List.reverse_cons]
    have nonempty : last ≠ [] := by
      have member : last ∈ pathNames p := by simp [whole]
      simpa using (List.mem_filter.mp member).2
    rw [whole, normComponents_concat, ← free.walk_eq before]
    split at entered
    · rw [← Option.some.inj entered]
      exact enter_eq_normStep nonempty (by
        rw [free.walk_eq before]
        exact pardir_notMem_normComponents _)
    · cases entered

theorem LinkFree.joinReal_names (free : t.LinkFree) (follow : Loc → Loc → Str → Real) (loc : Loc)
    (names : List Str) (proper : ∀ name ∈ names, isHere name = false ∧ name ≠ pardir) :
    t.joinReal follow loc names = .ok (loc ++ names) := by
  induction names generalizing loc with
  | nil => rw [joinReal, List.append_nil]
  | cons name names ih =>
      have own := proper name List.mem_cons_self
      have later := ih (loc ++ [name])
        fun other member => proper other (List.mem_cons_of_mem _ member)
      rw [List.append_assoc, List.singleton_append] at later
      rw [joinReal, if_neg (by simp [own.1]), if_neg own.2]
      split
      next target entry => exact absurd entry (free _ target)
      next => exact later

theorem LinkFree.realpath_normpath (free : t.LinkFree) {p : Str} (absolute : isabs p = true)
    (plain : '\x00' ∉ normpath p) :
    t.realpath (normpath p) = some (locText (normComponents true (components p))) := by
  rcases components_normpath p absolute with ⟨front, empty, comps⟩
  have skip (follow : Loc → Loc → Str → Real) (rest : List Str) :
      t.joinReal follow [] (front ++ rest) = t.joinReal follow [] rest := by
    clear comps
    induction front with
    | nil => rfl
    | cons comp front ih =>
        rw [empty comp List.mem_cons_self, List.cons_append, joinReal, if_pos (by decide)]
        exact ih fun other member => empty other (List.mem_cons_of_mem _ member)
  have found : t.realFrom (t.entries.length + 1) [] [] (components (normpath p)) =
      .ok (normComponents true (components p)) := by
    rw [comps, realFrom, skip, free.joinReal_names _ _ _ (normComponents_proper _)]
    rfl
  rw [realpath, if_neg plain, found]

end Tree

end SmolNas.Fs
