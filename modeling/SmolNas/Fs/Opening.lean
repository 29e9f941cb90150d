import SmolNas.Fs.Relative

/-! `open` for writing. A file that is missing is made; a link at the end of the path is
followed, also one whose target is missing. -/

namespace SmolNas.Fs

open Py

namespace Tree

variable (t : Tree)

/-- The file that is opened for the last name of a path. `follow` reads the target of a link
there, with the links that are left. -/
def openName (follow : Nat → Loc → Str → Option Loc) (dir : Loc) (left : Nat) (name : Str) :
    Option Loc :=
  if t.lstat dir ≠ some .dir ∨ isHere name = true ∨ name = pardir then none
  else
    match t.lstat (dir ++ [name]) with
    | none => if validName name then some (dir ++ [name]) else none
    | some .dir => none
    | some .file => some (dir ++ [name])
    | some (.link target) =>
        match left with
        | 0 => none
        | left + 1 => follow left (base dir target) target

/-- `depth` bounds the links that are followed at the end of a path; each of them is also
counted in `budget`. -/
def openFrom : Nat → Nat → Loc → List Str → Option Loc
  | 0, _, _, _ => none
  | depth + 1, budget, loc, comps =>
      match comps.getLast?, t.walk budget loc comps.dropLast with
      | some name, some (dir, left) =>
          t.openName (fun left loc target => openFrom depth left loc (components target))
            dir left name
      | _, _ => none

/-- The file that `open(p, 'wb')` writes, for an absolute path. -/
def opened (p : Str) : Option Loc := t.openFrom (maxLinks + 1) maxLinks [] (components p)

def openedThrough (p name : Str) : Option Loc :=
  match t.walk maxLinks [] (components p) with
  | some (dir, left + 1) =>
      match t.lstat (dir ++ [name]) with
      | some (.link target) => t.openFrom maxLinks left (base dir target) (components target)
      | _ => none
  | _ => none

theorem openName_congr {one two : Nat → Loc → Str → Option Loc} {dir : Loc} {left : Nat}
    {name : Str}
    (agree : ∀ less < left, ∀ loc target, one less loc target = two less loc target) :
    t.openName one dir left name = t.openName two dir left name := by
  unfold openName
  split
  next => rfl
  next =>
    split
    next => rfl
    next => rfl
    next => rfl
    next target entry =>
      cases left with
      | zero => rfl
      | succ left => exact agree left (Nat.lt_succ_self left) _ target

theorem openFrom_depth (extra depth budget : Nat) (enough : budget < depth) (loc : Loc)
    (comps : List Str) :
    t.openFrom (depth + extra) budget loc comps = t.openFrom depth budget loc comps := by
  induction depth generalizing budget loc comps with
  | zero => omega
  | succ depth ih =>
      rw [Nat.add_right_comm, openFrom, openFrom]
      split
      next name dir left _ walked =>
        rcases t.walk_cost budget loc _ _ walked with ⟨used, sum, -⟩
        have fewer : left ≤ budget := by
          dsimp only at sum
          omega
        apply t.openName_congr
        intro less below place target
        exact ih less (by omega) place (components target)
      next => rfl

inductive Opens (p name : Str) (place : Loc) : Prop
  | named (dir : Loc) (found : t.resolve p = some dir) (same : place = dir ++ [name])
  | linked (through : t.openedThrough p name = some place)

section Join

variable {t} {p name : Str}

theorem validName_components (valid : validName name = true) :
    isabs name = false ∧ components name = [name] := by
  have slash := (validName_spec valid).2.2.2
  constructor
  · rw [← Bool.not_eq_true]
    intro absolute
    rcases List.isPrefixOf_iff_prefix.mp absolute with ⟨rest, whole⟩
    rw [← whole] at slash
    simp at slash
  · have single : ∀ part ∈ [name], '/' ∉ part := by simpa using slash
    have split := List.splitOn_intercalate '/' single (by simp)
    rwa [List.intercalate_singleton] at split

theorem components_readFrom (relative : isabs name = false) (nonempty : p ≠ []) :
    components p = readFrom p name ∨ components p = readFrom p name ++ [[]] := by
  rw [readFrom, relative, if_neg (by decide), pathJoin, if_neg (by decide)]
  by_cases slash : endswith p ['/'] = true
  · rcases List.isSuffixOf_iff_suffix.mp slash with ⟨init, whole⟩
    rw [if_pos (.inr slash), ← whole, List.append_nil, components_append,
      show components [] = [[]] by decide, List.dropLast_concat]
    exact .inr rfl
  · rw [if_neg (by simp [nonempty, slash]), components_append, show components [] = [[]] by decide,
      List.dropLast_concat]
    exact .inl rfl

theorem walk_readFrom (relative : isabs name = false) (nonempty : p ≠ []) {dir : Loc} {left : Nat}
    (isDir : t.lstat dir = some .dir) :
    t.walk maxLinks [] (readFrom p name) = some (dir, left) ↔
      t.walk maxLinks [] (components p) = some (dir, left) := by
  have stay (budget : Nat) (loc : Loc) (m : Loc × Nat) :
      t.walk budget loc [[]] = some m ↔ t.lstat loc = some .dir ∧ m = (loc, budget) := by
    rw [walk_cons]
    by_cases here : t.lstat loc = some .dir
    · rw [if_neg (by simp [here]), if_pos (by decide), walk_nil, Option.some.injEq]
      simp [here, eq_comm]
    · rw [if_pos here]
      simp [here]
  rcases components_readFrom relative nonempty with same | longer
  · rw [same]
  · rw [longer, walk_append, Option.bind_eq_some_iff]
    constructor
    · intro walked
      exact ⟨(dir, left), walked, (stay _ _ _).mpr ⟨isDir, rfl⟩⟩
    · intro walked
      rcases walked with ⟨m, first, last⟩
      rw [first, ((stay _ _ _).mp last).2]

theorem opened_pathJoin (valid : validName name = true) : t.opened (pathJoin p name) =
    (t.walk maxLinks [] (readFrom p name)).bind fun m =>
      t.openName (fun left loc target => t.openFrom maxLinks left loc (components target))
        m.1 m.2 name := by
  rw [opened, components_pathJoin, (validName_components valid).2, openFrom,
    List.getLast?_concat, List.dropLast_concat]
  cases t.walk maxLinks [] (readFrom p name) with
  | none => rfl
  | some m => rfl

theorem opens_of_opened (valid : validName name = true) (nonempty : p ≠ []) {place : Loc}
    (written : t.opened (pathJoin p name) = some place) : t.Opens p name place := by
  have relative := (validName_components valid).1
  rw [opened_pathJoin valid] at written
  rcases Option.bind_eq_some_iff.mp written with ⟨m, walked, final⟩
  rw [openName] at final
  split at final
  next => cases final
  next proper =>
    have isDir : t.lstat m.1 = some .dir := by
      by_contra other
      exact proper (.inl other)
    have whole := (walk_readFrom relative nonempty isDir).mp walked
    have found : t.resolve p = some m.1 := by rw [resolve, whole, Option.map_some]
    split at final
    next =>
      rw [Option.some.injEq] at final
      exact .named m.1 found final.symm
    next => cases final
    next =>
      rw [Option.some.injEq] at final
      exact .named m.1 found final.symm
    next target entry =>
      split at final
      next => cases final
      next left spare =>
        refine .linked ?_
        rw [openedThrough, whole, spare]
        dsimp only
        rw [entry]
        exact final

theorem opened_of_through (valid : validName name = true) (nonempty : p ≠ []) {place : Loc}
    (through : t.openedThrough p name = some place) : t.opened (pathJoin p name) = some place := by
  have relative := (validName_components valid).1
  have proper := validName_spec valid
  rw [openedThrough] at through
  split at through
  next dir left walked =>
    split at through
    next target entry =>
      have isDir := t.lstat_parent entry
      have first := (walk_readFrom relative nonempty isDir).mpr walked
      rw [opened_pathJoin valid, first, Option.bind_some, openName,
        if_neg (by simp [isDir, proper.2.1, proper.2.2.1]), entry]
      exact through
    next => cases through
  next => cases through

end Join

end Tree

end SmolNas.Fs
