import Mathlib.Data.Char
import Mathlib.Data.List.Lex
import SmolNas.App.FileRemoval
import SmolNas.App.Routes
import SmolNas.Fs.Listing

/-! The file explorer: the pages of `files`, the links on them, and the rules that lead a
link back to a view. -/

namespace SmolNas.App

open Py Fs

section Pages

structure FileEntry where
  name : Str
  isDir : Bool
  path : Str
  deriving DecidableEq, Repr

/-- The entry for a name in a directory; one whose `stat` fails is left out. -/
def fileEntry (t : Tree) (loc : Loc) (subpath name : Str) : Option FileEntry :=
  (t.walk Tree.maxLinks loc [name]).map fun m =>
    ⟨name, t.lstat m.1 == some .dir, pathJoin subpath name⟩

/-- The order of the keys `(not is_dir, name.lower())`. -/
def entryLe (db : CharData) (a b : FileEntry) : Bool :=
  if a.isDir = b.isDir then decide (db.lower a.name ≤ db.lower b.name) else a.isDir

def filesList (db : CharData) (t : Tree) (loc : Loc) (subpath : Str) : List FileEntry :=
  ((t.scandir loc).filterMap (fileEntry t loc subpath)).mergeSort (entryLe db)

/-- The directory that the view scans and the rows of the page, unless it renders an error. -/
def filesPage (db : CharData) (t : Tree) (cwd subpath : Str) : Option (Loc × List FileEntry) :=
  match files t cwd subpath with
  | .acts .list absPath =>
      (t.resolve absPath).bind fun loc =>
        if t.lstat loc = some .dir then some (loc, filesList db t loc (stripSlashes subpath))
        else none
  | _ => none

end Pages

section Rules

def filesUrl : Str := "/files".toList

def staticRules : List (Str × Endpoint) :=
  [(filesUrl, .files), ("/files/upload".toList, .uploadFile), ("/files/delete".toList, .deleteFile),
    ("/files/download".toList, .downloadFile), ("/files/play".toList, .playVideo),
    ("/files/stream".toList, .streamFile)]

/-- `url_for('files', subpath=subpath)` -/
def filesLink (subpath : Str) : Str := filesUrl ++ '/' :: subpath

/-- The view for a request, with its `subpath`. A static rule that allows the method comes
before the rule `/files/<path:subpath>`, whose variable matches the texts of `rule`. -/
def route (rule : Str → Bool) (method : Method) (url : Str) : Option (Endpoint × Str) :=
  match staticRules.find? fun r => r.1 == url && r.2.allows method with
  | some r => some (r.2, [])
  | none =>
      let subpath := url.drop (filesLink []).length
      if startswith url (filesLink []) && rule subpath && Endpoint.files.allows method then
        some (.files, subpath)
      else none

def browse (db : CharData) (rule : Str → Bool) (t : Tree) (cwd url : Str) :
    Option (Loc × List FileEntry) :=
  match route rule .get url with
  | some (.files, subpath) => filesPage db t cwd subpath
  | _ => none

/-- The requests that one comes to from the first page over the links of directories. -/
inductive Explored (db : CharData) (rule : Str → Bool) (t : Tree) (cwd : Str) : Str → Prop where
  | start : Explored db rule t cwd filesUrl
  | follow {url : Str} {loc : Loc} {page : List FileEntry} {entry : FileEntry}
      (seen : Explored db rule t cwd url) (shown : browse db rule t cwd url = some (loc, page))
      (listed : entry ∈ page) (isDir : entry.isDir = true) :
      Explored db rule t cwd (filesLink entry.path)

structure Shows (t : Tree) (loc : Loc) (page : List FileEntry) : Prop where
  distinct : (page.map FileEntry.name).Nodup
  names : ∀ name, name ∈ page.map FileEntry.name ↔ (t.lstat (loc ++ [name])).isSome = true
  kinds : ∀ entry ∈ page, entry.isDir = (t.lstat (loc ++ [entry.name]) == some .dir)

def Serves (rule : Str → Bool) (t : Tree) (cwd : Str) (entry : FileEntry) (loc : Loc) : Prop :=
  route rule .get "/files/download".toList = some (.downloadFile, []) ∧
    ∃ absPath, downloadFile t cwd entry.path = .acts .attach absPath ∧
      t.resolve absPath = some loc

/-- The explorer comes to the directory, shows its entries and serves its files. -/
def Browsable (db : CharData) (rule : Str → Bool) (t : Tree) (cwd : Str) (loc : Loc) : Prop :=
  ∃ url page, Explored db rule t cwd url ∧ browse db rule t cwd url = some (loc, page) ∧
    Shows t loc page ∧
    ∀ entry ∈ page, entry.isDir = false → Serves rule t cwd entry (loc ++ [entry.name])

end Rules

section Store

variable {db : CharData} {t : Tree} {cwd : Str} {root : Loc} {names : List Str} {node : Node}

theorem stripSlashes_join (valid : ∀ name ∈ names, validName name = true) :
    stripSlashes (join ['/'] names) = join ['/'] names := by
  have front : (join ['/'] names).dropWhile (· == '/') = join ['/'] names := by
    have relative := join_relative valid
    cases text : join ['/'] names with
    | nil => rfl
    | cons c rest =>
        rw [text] at relative
        rw [List.dropWhile_cons_of_neg]
        intro slash
        rw [beq_iff_eq.mp slash] at relative
        cases relative
  have open' := join_unterminated valid
  rw [stripSlashes, front, List.rdropWhile_eq_self_iff]
  intro some slash
  rw [← Bool.not_eq_true] at open'
  apply open'
  have whole := List.dropLast_append_getLast some
  rw [beq_iff_eq.mp slash] at whole
  exact List.isSuffixOf_iff_suffix.mpr ⟨_, whole⟩

theorem pathJoin_nasRoot (valid : ∀ name ∈ names, validName name = true) :
    pathJoin nasRoot (join ['/'] names) = nasRoot ++ '/' :: join ['/'] names := by
  rw [pathJoin, join_relative valid, if_neg Bool.false_ne_true, if_neg (by decide)]

theorem store_valid (found : t.lstat (root ++ names) = some node) :
    ∀ name ∈ names, validName name = true := by
  intro name member
  exact t.lstat_valid found name (List.mem_append_right root member)

theorem resolve_store (rooted : t.resolve nasRoot = some root) (above : t.lstat root = some .dir)
    (free : t.LinkFreeBelow root) (found : t.lstat (root ++ names) = some node) :
    t.resolve (pathJoin nasRoot (join ['/'] names)) = some (root ++ names) := by
  have valid := store_valid found
  rcases Option.map_eq_some_iff.mp rooted with ⟨m, walked, place⟩
  rw [Tree.resolve, pathJoin_nasRoot valid, components_append, Tree.walk_append, walked,
    Option.bind_some, place]
  by_cases some : names = []
  · rw [some, List.append_nil]
    change (t.walk m.2 root [[]]).map Prod.fst = _
    rw [Tree.walk_cons, if_neg (by simp [above]), if_pos (by decide), Tree.walk_nil]
    rfl
  · rw [components_join valid some, Tree.walk_below free m.2 found]
    rfl

/-- The root of the store is not the root of the tree: a link would lead there. -/
theorem root_ne_nil (rooted : t.resolve nasRoot = some root) (free : t.LinkFreeBelow root) :
    root ≠ [] := by
  intro empty
  rw [empty] at free
  have place := free.linkFree.resolve_eq rooted
  rw [empty] at place
  exact absurd place (by decide)

theorem isInside_store (rooted : t.resolve nasRoot = some root) (above : t.lstat root = some .dir)
    (free : t.LinkFreeBelow root) (found : t.lstat (root ++ names) = some node) :
    isInsideNasRoot t cwd (pathJoin nasRoot (join ['/'] names)) = some true := by
  have valid := store_valid found
  have absolute := isabs_pathJoin (join ['/'] names)
  have resolved := resolve_store rooted above free found
  have safe : t.CancelsNoLink (components (pathJoin nasRoot (join ['/'] names))) := by
    intro i _ up
    have member := List.mem_of_getElem? up
    rw [pathJoin_nasRoot valid, components_append] at member
    rcases List.mem_append.mp member with front | back
    · exact absurd front (by decide)
    · by_cases some : names = []
      · rw [some] at back
        exact absurd back (by decide)
      · rw [components_join valid some] at back
        exact absurd rfl (validName_spec (valid _ back)).2.2.1
  have normal := t.resolve_normpath _ absolute safe _ resolved
  have real := t.realpath_eq_resolve _ (t.resolve_plain normal) _ normal
  have realRoot := t.realpath_eq_resolve nasRoot (by decide) root rooted
  have same : abspath cwd (pathJoin nasRoot (join ['/'] names)) =
      normpath (pathJoin nasRoot (join ['/'] names)) := by rw [abspath, if_pos absolute]
  have below := (below_iff (root_ne_nil rooted free) (t.lstat_valid above) (t.lstat_valid found)).mp
    (List.prefix_append root names)
  rw [isInsideNasRoot, same, real, realRoot]
  exact congrArg some below

theorem files_store (rooted : t.resolve nasRoot = some root) (above : t.lstat root = some .dir)
    (free : t.LinkFreeBelow root) (found : t.lstat (root ++ names) = some node) :
    files t cwd (join ['/'] names) = .acts .list (pathJoin nasRoot (join ['/'] names)) := by
  rw [files, stripSlashes_join (store_valid found), resolve_store rooted above free found,
    isInside_store rooted above free found]
  rfl

theorem downloadFile_store (rooted : t.resolve nasRoot = some root)
    (above : t.lstat root = some .dir) (free : t.LinkFreeBelow root)
    (found : t.lstat (root ++ names) = some node) (some : names ≠ []) :
    downloadFile t cwd (join ['/'] names) = .acts .attach (pathJoin nasRoot (join ['/'] names)) := by
  rw [downloadFile, pathView, if_neg (join_ne_nil (store_valid found) some)]
  dsimp only
  rw [resolve_store rooted above free found, isInside_store rooted above free found]
  rfl

theorem filesPage_store (rooted : t.resolve nasRoot = some root) (above : t.lstat root = some .dir)
    (free : t.LinkFreeBelow root) (found : t.lstat (root ++ names) = some .dir) :
    filesPage db t cwd (join ['/'] names) =
      some (root ++ names, filesList db t (root ++ names) (join ['/'] names)) := by
  rw [filesPage, files_store rooted above free found]
  dsimp only
  rw [resolve_store rooted above free found, Option.bind_some, if_pos found,
    stripSlashes_join (store_valid found)]

end Store

section Rows

variable {t : Tree} {loc : Loc}

theorem filesList_perm (db : CharData) (free : t.LinkFreeBelow loc) (subpath : Str) :
    (filesList db t loc subpath).Perm ((t.scandir loc).map fun name =>
      ⟨name, t.lstat (loc ++ [name]) == some .dir, pathJoin subpath name⟩) := by
  refine (List.mergeSort_perm _ _).trans (List.Perm.of_eq ?_)
  rw [← List.filterMap_eq_map]
  apply List.filterMap_congr
  intro name member
  rcases Option.isSome_iff_exists.mp (Tree.mem_scandir.mp member) with ⟨node, found⟩
  rw [fileEntry, Tree.walk_below free Tree.maxLinks found]
  rfl

theorem mem_filesList {db : CharData} (free : t.LinkFreeBelow loc) {subpath : Str}
    {entry : FileEntry} (listed : entry ∈ filesList db t loc subpath) :
    (t.lstat (loc ++ [entry.name])).isSome = true ∧
      entry.isDir = (t.lstat (loc ++ [entry.name]) == some .dir) ∧
      entry.path = pathJoin subpath entry.name := by
  have member := (filesList_perm db free subpath).mem_iff.mp listed
  rcases List.mem_map.mp member with ⟨name, inside, rfl⟩
  exact ⟨Tree.mem_scandir.mp inside, rfl, rfl⟩

theorem shows_filesList (db : CharData) (free : t.LinkFreeBelow loc) (subpath : Str) :
    Shows t loc (filesList db t loc subpath) := by
  have rows : ((filesList db t loc subpath).map FileEntry.name).Perm (t.scandir loc) := by
    have mapped := (filesList_perm db free subpath).map FileEntry.name
    rw [List.map_map] at mapped
    exact mapped.trans (List.Perm.of_eq (List.map_id _))
  refine ⟨rows.nodup_iff.mpr (Tree.nodup_scandir _), ?_, ?_⟩
  · intro name
    rw [rows.mem_iff, Tree.mem_scandir]
  · intro entry listed
    exact (mem_filesList free listed).2.1

end Rows

end SmolNas.App
