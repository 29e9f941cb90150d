import SmolNas.App.Explorer

/-! Which directories one comes to in the explorer, over the links of its pages. -/

namespace SmolNas.App

open Py Fs

section Routing

variable {rule : Str → Bool} {subpath : Str}

/-- The names that a static rule for `GET` has below `/files`. -/
def takenNames : List Str := ["download".toList, "play".toList, "stream".toList]

theorem filesLink_inj {a b : Str} : filesLink a = filesLink b ↔ a = b := by
  rw [filesLink, filesLink, List.append_cancel_left_eq, List.cons.injEq, and_iff_right rfl]

theorem filesUrl_ne_link (subpath : Str) : filesUrl ≠ filesLink subpath := by
  intro same
  have lengths := congrArg List.length same
  rw [filesLink, List.length_append, List.length_cons] at lengths
  omega

theorem filesLink_parts (subpath : Str) :
    startswith (filesLink subpath) (filesLink []) = true ∧
      (filesLink subpath).drop (filesLink []).length = subpath := by
  have whole : filesLink subpath = filesLink [] ++ subpath := by
    rw [filesLink, filesLink, List.append_assoc]
    rfl
  rw [whole]
  exact ⟨List.isPrefixOf_iff_prefix.mpr (List.prefix_append _ _), List.drop_left⟩

/-- A link leads to the view of its directory, unless it has one of the taken names. -/
theorem route_link (free : subpath ∉ takenNames) :
    route rule .get (filesLink subpath) = if rule subpath then some (.files, subpath) else none := by
  have none : (staticRules.find? fun r => r.1 == filesLink subpath && r.2.allows .get) = none := by
    rw [List.find?_eq_none]
    simp only [takenNames, List.mem_cons, List.not_mem_nil, or_false, not_or] at free
    have other {name : Str} (away : subpath ≠ name) (view : Endpoint) :
        ¬(filesLink name == filesLink subpath && view.allows .get) = true := by
      intro both
      rw [Bool.and_eq_true, beq_iff_eq, filesLink_inj] at both
      exact away both.1.symm
    intro r member
    simp only [staticRules, List.mem_cons, List.not_mem_nil, or_false] at member
    rcases member with rfl | rfl | rfl | rfl | rfl | rfl
    · simp [filesUrl_ne_link]
    · simp [Endpoint.allows]
    · simp [Endpoint.allows]
    · exact other free.1 .downloadFile
    · exact other free.2.1 .playVideo
    · exact other free.2.2 .streamFile
  have parts := filesLink_parts subpath
  rw [route, none]
  dsimp only
  rw [parts.1, parts.2, Bool.true_and, show Endpoint.files.allows .get = true from rfl, Bool.and_true]

theorem browse_taken (db : CharData) (t : Tree) (cwd : Str) (taken : subpath ∈ takenNames) :
    browse db rule t cwd (filesLink subpath) = none := by
  simp only [takenNames, List.mem_cons, List.not_mem_nil, or_false] at taken
  rcases taken with rfl | rfl | rfl
  · rfl
  · rfl
  · rfl

end Routing

section Exploring

variable {db : CharData} {rule : Str → Bool} {t : Tree} {cwd : Str} {root : Loc}
  {names : List Str}

def pageUrl (names : List Str) : Str :=
  if names = [] then filesUrl else filesLink (join ['/'] names)

/-- The names that lead a request for a page away from the view, or to it. -/
def Routed (rule : Str → Bool) (names : List Str) : Prop :=
  names = [] ∨ join ['/'] names ∉ takenNames ∧ rule (join ['/'] names) = true

theorem browse_pageUrl (rooted : t.resolve nasRoot = some root) (above : t.lstat root = some .dir)
    (free : t.LinkFreeBelow root) (found : t.lstat (root ++ names) = some .dir) :
    browse db rule t cwd (pageUrl names) =
        some (root ++ names, filesList db t (root ++ names) (join ['/'] names)) ∧
        Routed rule names ∨
      browse db rule t cwd (pageUrl names) = none ∧ ¬Routed rule names := by
  have page := @filesPage_store db t cwd root names rooted above free found
  by_cases top : names = []
  · left
    refine ⟨?_, .inl top⟩
    rw [pageUrl, if_pos top]
    rw [top] at page ⊢
    exact page
  · rw [pageUrl, if_neg top]
    by_cases taken : join ['/'] names ∈ takenNames
    · right
      refine ⟨browse_taken db t cwd taken, ?_⟩
      rintro (empty | other)
      · exact top empty
      · exact other.1 taken
    · cases matched : rule (join ['/'] names) with
      | true =>
          left
          refine ⟨?_, .inr ⟨taken, matched⟩⟩
          rw [browse, route_link taken, matched, if_pos rfl]
          exact page
      | false =>
          right
          refine ⟨?_, ?_⟩
          · rw [browse, route_link taken, matched, if_neg Bool.false_ne_true]
          · rintro (empty | other)
            · exact top empty
            · rw [matched] at other
              cases other.2

/-- Every request of the exploration is for the page of a directory. The induction is on the
links that were followed. -/
theorem explored_pageUrl (rooted : t.resolve nasRoot = some root)
    (above : t.lstat root = some .dir) (free : t.LinkFreeBelow root) {url : Str}
    (explored : Explored db rule t cwd url) :
    ∃ names, t.lstat (root ++ names) = some .dir ∧ url = pageUrl names := by
  induction explored with
  | start => exact ⟨[], by rw [List.append_nil]; exact above, rfl⟩
  | @follow url loc page entry seen shown listed isDir ih =>
      rcases ih with ⟨names, found, same⟩
      rw [same] at shown
      rcases @browse_pageUrl db rule t cwd root names rooted above free found with
        ⟨page', -⟩ | ⟨none, -⟩
      · rw [page'] at shown
        cases shown
        rcases mem_filesList (free.descend names) listed with ⟨-, kind, path⟩
        rw [isDir] at kind
        have inner : t.lstat (root ++ (names ++ [entry.name])) = some .dir := by
          rw [← List.append_assoc]
          exact beq_iff_eq.mp kind.symm
        have valid := store_valid inner
        refine ⟨names ++ [entry.name], inner, ?_⟩
        rw [pageUrl, if_neg (by simp), path, pathJoin_join (store_valid found) (valid _ (by simp))]
      · rw [none] at shown
        cases shown

theorem explored_down (rooted : t.resolve nasRoot = some root) (above : t.lstat root = some .dir)
    (free : t.LinkFreeBelow root)
    (routed : ∀ names, t.lstat (root ++ names) = some .dir → Routed rule names)
    (found : t.lstat (root ++ names) = some .dir) :
    Explored db rule t cwd (pageUrl names) := by
  induction names using List.reverseRecOn with
  | nil => exact .start
  | append_singleton names name ih =>
      have valid := store_valid found
      rw [← List.append_assoc] at found
      have parent := t.lstat_parent found
      have seen := ih parent
      have below := free.descend names
      rcases @browse_pageUrl db rule t cwd root names rooted above free parent with
        ⟨shown, -⟩ | ⟨-, away⟩
      · have row := (filesList_perm db below (join ['/'] names)).mem_iff.mpr
          (List.mem_map_of_mem (Tree.mem_scandir.mpr (by rw [found]; rfl)))
        have next := Explored.follow seen shown row (by rw [found]; rfl)
        rw [pathJoin_join (store_valid parent) (valid name (by simp))] at next
        rw [pageUrl, if_neg (by simp)]
        exact next
      · exact absurd (routed names parent) away

theorem routed_of_browsable (rooted : t.resolve nasRoot = some root)
    (free : t.LinkFreeBelow root) (found : t.lstat (root ++ names) = some .dir)
    (browsable : Browsable db rule t cwd (root ++ names)) : Routed rule names := by
  have above := Tree.lstat_base found
  rcases browsable with ⟨url, page, explored, shown, -, -⟩
  rcases explored_pageUrl rooted above free explored with ⟨names', found', same⟩
  rw [same] at shown
  rcases @browse_pageUrl db rule t cwd root names' rooted above free found' with
    ⟨page', routed⟩ | ⟨none, -⟩
  · rw [page', Option.some.injEq, Prod.mk.injEq, List.append_cancel_left_eq] at shown
    rwa [shown.1] at routed
  · rw [none] at shown
    cases shown

theorem browsable_of_routed (rooted : t.resolve nasRoot = some root) (free : t.LinkFreeBelow root)
    (routed : ∀ names, t.lstat (root ++ names) = some .dir → Routed rule names)
    (found : t.lstat (root ++ names) = some .dir) :
    Browsable db rule t cwd (root ++ names) := by
  have above := Tree.lstat_base found
  have below := free.descend names
  rcases @browse_pageUrl db rule t cwd root names rooted above free found with
    ⟨shown, -⟩ | ⟨-, away⟩
  · refine ⟨pageUrl names, _, explored_down rooted above free routed found, shown,
      shows_filesList db below _, ?_⟩
    intro entry listed _
    rcases mem_filesList below listed with ⟨present, -, path⟩
    rcases Option.isSome_iff_exists.mp present with ⟨node, object⟩
    rw [List.append_assoc] at object
    have valid := store_valid object
    have whole : entry.path = join ['/'] (names ++ [entry.name]) :=
      path.trans (pathJoin_join (store_valid found) (valid _ (by simp)))
    refine ⟨rfl, pathJoin nasRoot entry.path, ?_, ?_⟩
    · rw [whole]
      exact downloadFile_store rooted above free object (by simp)
    · rw [whole, resolve_store rooted above free object, List.append_assoc]
  · exact absurd (routed names found) away

end Exploring

/-- In a store without links every directory is browsed exactly if none at its top has the
name of a static rule and the path rule matches the path of each. -/
theorem every_directory_browsable_iff (db : CharData) (rule : Str → Bool) (t : Tree) (cwd : Str)
    (root : Loc) (rooted : t.resolve nasRoot = some root) (free : t.LinkFreeBelow root) :
    (∀ names, t.lstat (root ++ names) = some .dir → Browsable db rule t cwd (root ++ names)) ↔
      (∀ name ∈ takenNames, t.lstat (root ++ [name]) ≠ some .dir) ∧
        ∀ names, names ≠ [] → t.lstat (root ++ names) = some .dir →
          rule (join ['/'] names) = true := by
  constructor
  · intro all
    have routed : ∀ names, t.lstat (root ++ names) = some .dir → Routed rule names :=
      fun names found => routed_of_browsable rooted free found (all names found)
    constructor
    · intro name taken found
      rcases routed [name] found with empty | other
      · cases empty
      · apply other.1
        rwa [show join ['/'] [name] = name by simp [join]]
    · intro names top found
      rcases routed names found with empty | other
      · exact absurd empty top
      · exact other.2
  · rintro ⟨untaken, matched⟩ names found
    apply browsable_of_routed rooted free _ found
    intro names found
    by_cases top : names = []
    · exact .inl top
    · refine .inr ⟨?_, matched names top found⟩
      intro taken
      have single : ∀ name ∈ takenNames, components name = [name] := by decide
      have parts := components_join (store_valid found) top
      rw [single _ taken] at parts
      rw [← parts] at found
      exact untaken _ taken found

/-- The texts of `[^/].*?`, which the converter of the path rule is. -/
def pathConverter (text : Str) : Bool := text.head?.any (· != '/') && !text.tail.contains '\n'

def exampleStore : Tree where
  entries :=
    [(["srv".toList], .dir), (nasNames, .dir), (nasNames ++ ["upload".toList], .dir),
      (nasNames ++ ["upload".toList, "download".toList], .dir),
      (nasNames ++ ["play".toList], .file)]
  wellFormed := by decide +kernel

theorem upload_browsable :
    Browsable .ascii pathConverter exampleStore "/".toList
      (nasNames ++ ["upload".toList, "download".toList]) := by
  have table : ∀ entry ∈ exampleStore.entries, entry.2 = .dir → entry.1.drop 2 ≠ [] →
      pathConverter (join ['/'] (entry.1.drop 2)) = true := by decide +kernel
  refine (every_directory_browsable_iff .ascii pathConverter exampleStore "/".toList nasNames
    (by decide +kernel) (Tree.linkFreeBelow_of_entries (by decide +kernel) _)).mpr
    ⟨by decide +kernel, ?_⟩ _ (by decide +kernel)
  intro names top found
  have entry := exampleStore.lstat_entry found (by simp [nasNames])
  have whole : (nasNames ++ names).drop 2 = names := rfl
  rw [← whole] at top ⊢
  exact table _ entry rfl top

def downloadStore : Tree where
  entries :=
    [(["srv".toList], .dir), (nasNames, .dir), (nasNames ++ ["download".toList], .dir),
      (nasNames ++ ["download".toList, "film".toList], .file)]
  wellFormed := by decide +kernel

/-- The link of a directory `download` leads to another view, and the explorer never shows what
is in it. -/
theorem download_unreachable :
    downloadStore.resolve nasRoot = some nasNames ∧ downloadStore.LinkFreeBelow nasNames ∧
      ¬∀ names, downloadStore.lstat (nasNames ++ names) = some .dir →
        Browsable .ascii pathConverter downloadStore "/".toList (nasNames ++ names) := by
  have rooted : downloadStore.resolve nasRoot = some nasNames := by decide +kernel
  have free : downloadStore.LinkFreeBelow nasNames :=
    Tree.linkFreeBelow_of_entries (by decide +kernel) _
  refine ⟨rooted, free, ?_⟩
  intro all
  have found : downloadStore.lstat (nasNames ++ ["download".toList]) = some .dir := by decide +kernel
  rcases routed_of_browsable rooted free found (all _ found) with empty | other
  · cases empty
  · exact absurd other.1 (by decide +kernel)

end SmolNas.App
