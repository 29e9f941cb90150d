import SmolNas.Fs.Realpath

/-! The file browser: the containment check `_is_inside_nas_root` and the views
`files`, `delete_file`, `download_file` and `stream_file` that rely on it. -/

namespace SmolNas.App

open Py Fs

def nasRoot : Str := "/srv/nas".toList

/-- `_is_inside_nas_root(path)`; no value stands for a raised `ValueError`. -/
def isInsideNasRoot (t : Tree) (cwd path : Str) : Option Bool := do
  let resolved ← t.realpath (abspath cwd path)
  let root ← t.realpath nasRoot
  return resolved == root || startswith resolved (root ++ ['/'])

/-- The path is inside the root as it is given, without `abspath`, compared name by name. -/
def isInsideAsGiven (t : Tree) (path : Str) : Option Bool := do
  let resolved ← t.realpath path
  let root ← t.realpath nasRoot
  return (pathNames root).isPrefixOf (pathNames resolved)

inductive FileAction where
  | list
  | remove
  | attach
  | stream
  deriving DecidableEq, Repr

/-- How a view of the file browser ends. `acts` is the only reply after which
the path string is opened, listed or given to `rm -rf`. -/
inductive FileReply where
  | noPath
  | notFound
  | accessDenied
  | serverError
  | acts (action : FileAction) (absPath : Str)
  deriving DecidableEq, Repr

/-- `subpath.strip('/')` -/
def stripSlashes (s : Str) : Str := (s.dropWhile (· == '/')).rdropWhile (· == '/')

def files (t : Tree) (cwd subpath : Str) : FileReply :=
  let absPath := pathJoin nasRoot (stripSlashes subpath)
  if (t.resolve absPath).isNone then .notFound
  else
    match isInsideNasRoot t cwd absPath with
    | none => .serverError
    | some false => .accessDenied
    | some true => .acts .list absPath

/-- The body shared by the views that take a `path` parameter. -/
def pathView (action : FileAction) (t : Tree) (cwd path : Str) : FileReply :=
  if path = [] then .noPath
  else
    let absPath := pathJoin nasRoot path
    match isInsideNasRoot t cwd absPath with
    | none => .serverError
    | some false => .accessDenied
    | some true => if (t.resolve absPath).isNone then .notFound else .acts action absPath

def deleteFile : Tree → Str → Str → FileReply := pathView .remove

def downloadFile : Tree → Str → Str → FileReply := pathView .attach

def streamFile : Tree → Str → Str → FileReply := pathView .stream

inductive FileRoute where
  | files
  | deleteFile
  | downloadFile
  | streamFile
  deriving DecidableEq, Repr

namespace FileRoute

def view : FileRoute → Tree → Str → Str → FileReply
  | files => App.files
  | deleteFile => App.deleteFile
  | downloadFile => App.downloadFile
  | streamFile => App.streamFile

def absPath (path : Str) : FileRoute → Str
  | files => pathJoin nasRoot (stripSlashes path)
  | _ => pathJoin nasRoot path

/-- The object behind the path string that the view acts on, found as the kernel
finds it, is the root directory of the store or lies below it. -/
def ActsInside (t : Tree) (cwd path : Str) (route : FileRoute) : Prop :=
  ∀ action absPath, route.view t cwd path = .acts action absPath →
    ∀ found, t.resolve absPath = some found →
      ∀ root, t.realpath nasRoot = some root → pathNames root <+: found

end FileRoute

theorem isabs_pathJoin (b : Str) : isabs (pathJoin nasRoot b) = true := by
  unfold pathJoin
  split
  · assumption
  · rw [if_neg (by decide)]
    rfl

/-- The check compares path strings; for the location that `realpath` returned
it says that the location is in the subtree of the root. -/
theorem inside_of_check (found : Loc) (valid : ∀ name ∈ found, validName name = true)
    (root : Str)
    (check : (locText found == root || startswith (locText found) (root ++ ['/'])) = true) :
    pathNames root <+: found := by
  rw [Bool.or_eq_true, beq_iff_eq] at check
  rcases check with same | below
  · rw [← same, pathNames_locText found valid]
  · obtain ⟨rest, text⟩ := List.isPrefixOf_iff_prefix.mp below
    have names := pathNames_append root rest
    rw [List.append_assoc, List.singleton_append] at text
    rw [text, pathNames_locText found valid] at names
    exact ⟨pathNames rest, names.symm⟩

theorem locText_append (root : Loc) (nonempty : root ≠ []) (name : Str) (rest : Loc) :
    locText (root ++ name :: rest) = locText root ++ '/' :: join ['/'] (name :: rest) := by
  cases root with
  | nil => exact absurd rfl nonempty
  | cons first names => exact congrArg (List.cons '/') (join_append ['/'] first names name rest)

theorem below_iff {root : Loc} (nonempty : root ≠ []) (valid : ∀ name ∈ root, validName name = true)
    {found : Loc} (names : ∀ part ∈ found, validName part = true) :
    root <+: found ↔ (locText found == locText root ||
      startswith (locText found) (locText root ++ ['/'])) = true := by
  constructor
  · intro below
    rcases below with ⟨rest, whole⟩
    rw [← whole]
    cases rest with
    | nil => simp
    | cons part rest =>
        rw [locText_append root nonempty, Bool.or_eq_true]
        refine .inr (List.isPrefixOf_iff_prefix.mpr ⟨join ['/'] (part :: rest), ?_⟩)
        rw [List.append_assoc, List.singleton_append]
  · intro check
    have under := inside_of_check found names _ check
    rwa [pathNames_locText root valid] at under

theorem isInsideNasRoot_resolved (t : Tree) (cwd p : Str) (absolute : isabs p = true)
    (safe : t.CancelsNoLink (components p)) (found : Loc) (resolved : t.resolve p = some found)
    (inside : isInsideNasRoot t cwd p = some true) (root : Str)
    (rooted : t.realpath nasRoot = some root) : pathNames root <+: found := by
  have normal := t.resolve_normpath p absolute safe found resolved
  have same : abspath cwd p = normpath p := by rw [abspath, if_pos absolute]
  rw [isInsideNasRoot, same, rooted] at inside
  have free : '\x00' ∉ normpath p := by
    intro member
    simp [Tree.realpath, member] at inside
  rw [t.realpath_eq_resolve (normpath p) free found normal] at inside
  exact inside_of_check found (t.resolve_valid p found resolved) root (by simpa using inside)

theorem view_acts (t : Tree) (cwd path : Str) (route : FileRoute) (action : FileAction) (p : Str)
    (acted : route.view t cwd path = .acts action p) :
    p = route.absPath path ∧ isInsideNasRoot t cwd p = some true := by
  have checked (view : FileAction) (acted : pathView view t cwd path = .acts action p) :
      p = pathJoin nasRoot path ∧ isInsideNasRoot t cwd p = some true := by
    unfold pathView at acted
    split at acted
    · cases acted
    · cases inside : isInsideNasRoot t cwd (pathJoin nasRoot path) with
      | none => simp [inside] at acted
      | some answer =>
          cases answer with
          | false => simp [inside] at acted
          | true =>
              simp only [inside] at acted
              split at acted
              · cases acted
              · cases acted
                exact ⟨rfl, inside⟩
  cases route with
  | files =>
      simp only [FileRoute.view, files] at acted
      split at acted
      · cases acted
      · cases inside : isInsideNasRoot t cwd (pathJoin nasRoot (stripSlashes path)) with
        | none => simp [inside] at acted
        | some answer =>
            cases answer with
            | false => simp [inside] at acted
            | true =>
                simp only [inside] at acted
                cases acted
                exact ⟨rfl, inside⟩
  | deleteFile => exact checked _ acted
  | downloadFile => exact checked _ acted
  | streamFile => exact checked _ acted

theorem isabs_absPath (path : Str) (route : FileRoute) : isabs (route.absPath path) = true := by
  cases route <;> exact isabs_pathJoin _

theorem acts_of_check {t : Tree} {cwd path : Str} {route : FileRoute}
    (given : route = .files ∨ path ≠ [])
    (inside : isInsideNasRoot t cwd (route.absPath path) = some true) {found : Loc}
    (resolved : t.resolve (route.absPath path) = some found) :
    ∃ action, route.view t cwd path = .acts action (route.absPath path) := by
  have checked (action : FileAction) (nonempty : path ≠ [])
      (inside : isInsideNasRoot t cwd (pathJoin nasRoot path) = some true)
      (resolved : t.resolve (pathJoin nasRoot path) = some found) :
      pathView action t cwd path = .acts action (pathJoin nasRoot path) := by
    rw [pathView, if_neg nonempty]
    simp only [inside, resolved, Option.isNone_some, Bool.false_eq_true, if_false]
  cases route with
  | files =>
      refine ⟨.list, ?_⟩
      rw [FileRoute.absPath] at inside resolved
      simp only [FileRoute.view, files, FileRoute.absPath, inside, resolved, Option.isNone_some,
        Bool.false_eq_true, if_false]
  | deleteFile => exact ⟨.remove, checked _ (given.resolve_left (by decide)) inside resolved⟩
  | downloadFile => exact ⟨.attach, checked _ (given.resolve_left (by decide)) inside resolved⟩
  | streamFile => exact ⟨.stream, checked _ (given.resolve_left (by decide)) inside resolved⟩

theorem cancels_empty (t : Tree) : t.CancelsNoLink (components (pathJoin nasRoot [])) := by
  intro i _ up
  exact absurd (List.mem_of_getElem? up) (by decide)

theorem isInsideAsGiven_resolved {t : Tree} {p : Str} {found : Loc}
    (resolved : t.resolve p = some found) {root : Str} (rooted : t.realpath nasRoot = some root) :
    isInsideAsGiven t p = some (decide (pathNames root <+: found)) := by
  have real := t.realpath_eq_resolve p (t.resolve_plain resolved) found resolved
  rw [isInsideAsGiven, real, rooted]
  simp only [Option.bind_eq_bind, Option.bind_some, Option.pure_def, Option.some.injEq]
  rw [pathNames_locText found (t.resolve_valid p found resolved), Bool.eq_iff_iff,
    List.isPrefixOf_iff_prefix, decide_eq_true_iff]

/-- The views act inside the root if no `..` cancels a link. In general they do so exactly for
the paths that exist only where the check would also accept them as they are given. -/
theorem views_act_inside (t : Tree) (cwd path : Str) (route : FileRoute) :
    (t.CancelsNoLink (components (route.absPath path)) → route.ActsInside t cwd path) ∧
    (route.ActsInside t cwd path ↔
      (isInsideNasRoot t cwd (route.absPath path) = some true →
        t.resolve (route.absPath path) = none ∨
          isInsideAsGiven t (route.absPath path) = some true)) := by
  have absolute := isabs_absPath path route
  constructor
  · intro safe action p acted found resolved root rooted
    obtain ⟨rfl, inside⟩ := view_acts t cwd path route action p acted
    exact isInsideNasRoot_resolved t cwd _ absolute safe found resolved inside root rooted
  constructor
  · intro acts inside
    cases resolved : t.resolve (route.absPath path) with
    | none => exact .inl rfl
    | some found =>
        refine .inr ?_
        obtain ⟨root, rooted⟩ : ∃ root, t.realpath nasRoot = some root := by
          cases rooted : t.realpath nasRoot with
          | none => simp [isInsideNasRoot, rooted] at inside
          | some root => exact ⟨root, rfl⟩
        rw [isInsideAsGiven_resolved resolved rooted, Option.some.injEq, decide_eq_true_iff]
        by_cases given : route = .files ∨ path ≠ []
        · rcases acts_of_check given inside resolved with ⟨action, acted⟩
          exact acts action _ acted found resolved root rooted
        · -- an empty parameter, for which the view does nothing, still names the root
          simp only [not_or, not_not] at given
          have plain : route.absPath path = pathJoin nasRoot [] := by
            rw [given.2]
            cases route <;> rfl
          have safe : t.CancelsNoLink (components (route.absPath path)) := by
            rw [plain]
            exact cancels_empty t
          exact isInsideNasRoot_resolved t cwd _ absolute safe found resolved inside root rooted
  · intro checked action p acted found resolved root rooted
    obtain ⟨rfl, inside⟩ := view_acts t cwd path route action p acted
    rcases checked inside with missing | given
    · rw [missing] at resolved
      cases resolved
    · rw [isInsideAsGiven_resolved resolved rooted, Option.some.injEq, decide_eq_true_iff] at given
      exact given

/-- A store with a link `a` to a directory outside it. -/
def linkedTree : Tree where
  entries :=
    [(["srv".toList], .dir), (["srv".toList, "nas".toList], .dir),
      (["srv".toList, "nas".toList, "docs".toList], .dir),
      (["srv".toList, "nas".toList, "readme".toList], .file),
      (["srv".toList, "nas".toList, "a".toList], .link "/etc/x".toList),
      (["etc".toList], .dir), (["etc".toList, "x".toList], .dir),
      (["etc".toList, "passwd".toList], .file)]
  wellFormed := by decide +kernel

-- a `..` that cancels a link, in a path that is refused all the same
example : ¬linkedTree.CancelsNoLink (components (pathJoin nasRoot "a/../../x".toList)) ∧
    isInsideNasRoot linkedTree "/".toList (pathJoin nasRoot "a/../../x".toList) = some false := by
  decide +kernel

/-- `a/../passwd` is checked as `/srv/nas/passwd` and opened as `/etc/passwd`. -/
theorem download_leaves_root :
    ¬FileRoute.downloadFile.ActsInside linkedTree "/".toList "a/../passwd".toList := by
  intro inside
  have opened := inside .attach (pathJoin nasRoot "a/../passwd".toList) (by decide +kernel)
    ["etc".toList, "passwd".toList] (by decide +kernel) nasRoot (by decide +kernel)
  revert opened
  decide +kernel

end SmolNas.App
