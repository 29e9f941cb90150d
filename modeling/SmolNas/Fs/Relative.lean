import SmolNas.Fs.Realpath

/-! Paths that may be relative, read from a working directory. -/

namespace SmolNas.Fs

open Py

def readFrom (cwd p : Str) : List Str :=
  if isabs p then [] else (components (pathJoin cwd [])).dropLast

theorem components_pathJoin_relative (a : Str) :
    ∃ front, ∀ b, isabs b = false → components (pathJoin a b) = front ++ components b := by
  by_cases joined : a = [] ∨ endswith a ['/'] = true
  · rcases joined with empty | slash
    · refine ⟨[], fun b relative => ?_⟩
      rw [pathJoin, relative, if_neg (by decide), if_pos (.inl empty), empty]
      rfl
    · rcases List.isSuffixOf_iff_suffix.mp slash with ⟨init, whole⟩
      refine ⟨components init, fun b relative => ?_⟩
      rw [pathJoin, relative, if_neg (by decide), if_pos (.inr slash), ← whole,
        List.append_assoc, List.singleton_append, components_append]
  · refine ⟨components a, fun b relative => ?_⟩
    rw [pathJoin, relative, if_neg (by decide), if_neg joined, components_append]

theorem components_pathJoin (cwd p : Str) :
    components (pathJoin cwd p) = readFrom cwd p ++ components p := by
  unfold readFrom
  cases absolute : isabs p with
  | true =>
      rw [pathJoin, if_pos absolute, if_pos rfl, List.nil_append]
  | false =>
      rcases components_pathJoin_relative cwd with ⟨front, joined⟩
      have last : components (pathJoin cwd []) = front ++ [[]] := joined [] (by decide)
      rw [if_neg (by decide), last, List.dropLast_concat]
      exact joined p absolute

section Normal

variable {p : Str}

theorem isabs_normpath (absolute : isabs p = true) : isabs (normpath p) = true := by
  rcases initialSlashes_absolute absolute with ⟨k, count⟩
  unfold normpath
  rw [count]
  simp [List.replicate_succ, isabs, startswith]

theorem normpath_relative (relative : isabs p = false) :
    normpath p = if normComponents false (components p) = [] then curdir
      else join ['/'] (normComponents false (components p)) := by
  have double : startswith p ['/', '/'] = false := by
    rw [← Bool.not_eq_true]
    intro start
    rcases List.isPrefixOf_iff_prefix.mp start with ⟨rest, whole⟩
    rw [← whole] at relative
    cases relative
  have slashes : initialSlashes p = 0 := by
    rw [initialSlashes, double, relative]
    rfl
  have text : (join ['/'] (normComponents false (components p)) = []) ↔
      normComponents false (components p) = [] := by
    constructor
    · intro empty
      cases names : normComponents false (components p) with
      | nil => rfl
      | cons name rest =>
          have named := normComponents_named false (components p) name (by simp [names])
          rw [names] at empty
          have blank : name = [] := by
            cases rest with
            | nil => simpa [join] using empty
            | cons other rest => simp [join] at empty
          rw [blank] at named
          cases named
    · intro empty
      rw [empty]
      rfl
  unfold normpath
  rw [slashes]
  simp only [List.replicate_zero, List.nil_append, bne_self_eq_false, text]

theorem components_normpath_relative (relative : isabs p = false) :
    components (normpath p) = if normComponents false (components p) = [] then [curdir]
      else normComponents false (components p) := by
  rw [normpath_relative relative]
  split
  next => decide
  next nonempty =>
    have slashes : ∀ name ∈ normComponents false (components p), '/' ∉ name := fun name member =>
      components_no_slash p name (normComponents_subset false _ name member)
    exact List.splitOn_intercalate '/' slashes nonempty

theorem isabs_normpath_relative (relative : isabs p = false) : isabs (normpath p) = false := by
  rw [← Bool.not_eq_true]
  intro absolute
  rcases List.isPrefixOf_iff_prefix.mp absolute with ⟨rest, whole⟩
  have first : [] ∈ components (normpath p) := by
    have split := components_append [] rest
    rw [← whole, List.singleton_append]
    rw [List.nil_append] at split
    rw [split]
    exact List.mem_append_left _ (by decide)
  rw [components_normpath_relative relative] at first
  split at first
  · revert first
    decide
  · have named := normComponents_named false (components p) [] first
    cases named

end Normal

namespace Tree

variable (t : Tree)

theorem joinReal_append {follow : Loc → Loc → Str → Real} {loc mid : Loc} {front : List Str}
    (read : t.joinReal follow loc front = .ok mid) (rest : List Str) :
    t.joinReal follow loc (front ++ rest) = t.joinReal follow mid rest := by
  induction front generalizing loc with
  | nil =>
      rw [joinReal, Real.ok.injEq] at read
      rw [read, List.nil_append]
  | cons comp front ih =>
      rw [joinReal] at read
      rw [List.cons_append, joinReal]
      split at read
      next here =>
        rw [if_pos here]
        exact ih read
      next named =>
        rw [if_neg named]
        split at read
        next up =>
          rw [if_pos up]
          exact ih read
        next proper =>
          rw [if_neg proper]
          split at read
          next =>
            split at read
            next found followed => exact ih read
            next => cases read
          next => exact ih read

theorem realFrom_curdir {depth : Nat} {front : List Str} {found : Loc}
    (read : t.realFrom (depth + 1) [] [] front = .ok found) :
    t.realFrom (depth + 1) [] [] (front ++ [curdir]) = .ok found := by
  rw [realFrom] at read ⊢
  rw [t.joinReal_append read, joinReal, if_pos (by decide), joinReal]

/-- Where no `..` cancels a link, `realpath` of the normal form of a path is what the kernel
finds for the path as it was given. -/
theorem realpath_join_normpath (cwd p : Str)
    (safe : CancelsNone (fun names => t.isLink (readFrom cwd p ++ names)) (isabs p) (components p))
    (plain : '\x00' ∉ pathJoin cwd (normpath p)) {found : Loc}
    (resolved : t.resolve (pathJoin cwd p) = some found) :
    t.realpath (pathJoin cwd (normpath p)) = some (locText found) := by
  rcases Option.map_eq_some_iff.mp resolved with ⟨m, walked, place⟩
  rw [components_pathJoin] at walked
  have rooted : isabs p = true → readFrom cwd p = [] := fun absolute => if_pos absolute
  rcases t.walk_norm (readFrom cwd p) rooted (components p) safe m walked with ⟨left, -, normal⟩
  cases absolute : isabs p with
  | true =>
      rcases components_normpath p absolute with ⟨front, empty, comps⟩
      have same : t.resolve (pathJoin cwd (normpath p)) = some found := by
        rw [rooted absolute, absolute, List.nil_append] at normal
        rw [pathJoin, if_pos (isabs_normpath absolute), resolve, comps,
          walk_empty_components t maxLinks front _ empty, normal, ← place]
        rfl
      exact t.realpath_eq_resolve _ plain found same
  | false =>
      have relative := isabs_normpath_relative absolute
      have start : readFrom cwd (normpath p) = readFrom cwd p := by
        rw [readFrom, readFrom, relative, absolute]
      rw [absolute] at normal
      have read := t.realFrom_walk normal
      have found' : t.realFrom (t.entries.length + 1) [] []
          (components (pathJoin cwd (normpath p))) = .ok found := by
        rw [components_pathJoin, start, components_normpath_relative absolute]
        rw [← place]
        split
        next none =>
          rw [none, List.append_nil] at read
          exact t.realFrom_curdir read
        next => exact read
      rw [realpath, if_neg plain, found']

end Tree

end SmolNas.Fs
