import SmolNas.App.Commands
import SmolNas.App.Explorer
import SmolNas.App.Uploads
import SmolNas.Fs.Writing

/-! Uploads and deletions one after the other: the files below the root of the store, what
`download_file` and `files` show of them, and the calls of `log_audit_event`. -/

namespace SmolNas.App

open Py Fs

section Views

/-- How far the copy of an upload gets. -/
inductive SaveFault where
  | none
  | atOpen
  | afterBytes (n : Nat)
  deriving DecidableEq, Repr

/-- An `rm` that does not succeed, with what it leaves below its target. -/
structure RmFault where
  outcome : Outcome
  fails : (sudoAnswer outcome).1 = false
  left : List Loc

structure FileState where
  tree : Tree
  contents : Loc → List UInt8
  /-- The calls of `log_audit_event`, in order. Without credentials, and where the server
  refuses it, such a call writes nothing; the views do not ask. -/
  audit : List AuditEvent

/-- `os.path.basename` -/
def basename (p : Str) : Str := p.rtakeWhile (· != '/')

/-- `os.path.dirname` -/
def dirname (p : Str) : Str :=
  let head := p.rdropWhile (· != '/')
  if head.all (· == '/') then head else head.rdropWhile (· == '/')

namespace FileState

def write (place : Loc) (bytes : List UInt8) (st : FileState) : FileState :=
  { st with
    tree := st.tree.touch place
    contents := fun loc => if loc = place then bytes else st.contents loc }

/-- A call of `log_audit_event`. -/
def log (event : AuditEvent) (st : FileState) : FileState :=
  { st with audit := st.audit ++ [event] }

def upload (s : Sanitizer) (cwd user : Str) (file path : Option Str) (body : List UInt8)
    (fault : SaveFault) (st : FileState) : FileState :=
  match uploadFile s st.tree cwd user file path with
  | .saved place _ event =>
      match fault with
      | .atOpen => st
      | .afterBytes n => st.write place (body.take n)
      | .none => (st.write place body).log event
  | _ => st

/-- `run_sudo_command` of `rm -rf`: the tree afterwards, and whether it succeeded. -/
def runRm (env : Env) (absPath : Str) (fault : Option RmFault) (t : Tree) : Tree × Bool :=
  if env.production = false then (t, true)
  else
    match t.removedAt absPath with
    | none => (t, false)
    | some target =>
        match fault with
        | none => (t.removeAll target [], true)
        | some f => (t.removeAll target (f.left.map (target ++ ·)), (sudoAnswer f.outcome).1)

def delete (env : Env) (cwd user : Str) (path : Option Str) (fault : Option RmFault)
    (st : FileState) : FileState :=
  match deleteFile st.tree cwd (path.getD []) with
  | .acts _ absPath =>
      let (tree, success) := runRm env absPath fault st.tree
      let st := { st with tree }
      if success then
        st.log ⟨user, "File/Folder Deleted".toList, basename (path.getD []),
          "Target Directory: ".toList ++ dirname absPath⟩
      else st
  | _ => st

/-- The bytes that `download_file` sends; a directory cannot be sent. -/
def downloaded (cwd path : Str) (st : FileState) : Option (List UInt8) :=
  match downloadFile st.tree cwd path with
  | .acts _ absPath =>
      (st.tree.resolve absPath).bind fun loc =>
        if st.tree.lstat loc = some .file then some (st.contents loc) else none
  | _ => none

end FileState

end Views

section Names

variable {front name : Str}

theorem basename_slash (slash : '/' ∉ name) : basename (front ++ '/' :: name) = name := by
  have own : ∀ c ∈ name.reverse, (c != '/') = true := by
    intro c member
    rw [bne_iff_ne]
    intro same
    exact slash (same ▸ List.mem_reverse.mp member)
  rw [basename, List.rtakeWhile, List.reverse_append, List.reverse_cons, List.append_assoc,
    List.takeWhile_append_of_pos own, List.singleton_append, List.takeWhile_cons_of_neg (by decide),
    List.append_nil, List.reverse_reverse]

theorem dirname_slash (slash : '/' ∉ name) {c : Char} (last : front.getLast? = some c)
    (other : c ≠ '/') : dirname (front ++ '/' :: name) = front := by
  have own : ∀ d ∈ name.reverse, (d != '/') = true := by
    intro d member
    rw [bne_iff_ne]
    intro same
    exact slash (same ▸ List.mem_reverse.mp member)
  have head : (front ++ '/' :: name).rdropWhile (· != '/') = front ++ ['/'] := by
    rw [List.rdropWhile, List.reverse_append, List.reverse_cons, List.append_assoc,
      List.dropWhile_append_of_pos own, List.singleton_append, List.dropWhile_cons_of_neg (by decide),
      List.reverse_cons, List.reverse_reverse]
  rcases List.getLast?_eq_some_iff.mp last with ⟨init, whole⟩
  have mixed : ¬(front ++ ['/']).all (· == '/') = true := by
    rw [List.all_eq_true]
    intro all
    exact other (beq_iff_eq.mp (all c (by simp [whole])))
  rw [dirname, head, if_neg mixed, List.rdropWhile_concat_pos _ _ _ (by decide), whole,
    List.rdropWhile_concat_neg _ _ _ (by simpa using other)]

end Names

section Table

inductive Stored where
  | dir
  | file (body : List UInt8)
  deriving DecidableEq, Repr

def Stored.body : Stored → Option (List UInt8)
  | dir => none
  | file body => some body

/-- The objects of the store by their names below its root. -/
abbrev Store := List Str → Option Stored

def Store.put (names : List Str) (body : List UInt8) (store : Store) : Store :=
  fun other => if other = names then some (.file body) else store other

/-- Without the subtree, but for what is left of it. -/
def Store.drop (names : List Str) (left : List Loc) (store : Store) : Store :=
  fun other => if Tree.spared names (left.map (names ++ ·)) other then store other else none

inductive ExplorerRequest where
  | upload (user client : Str) (dir : List Str) (body : List UInt8) (fault : SaveFault)
  | delete (user : Str) (names : List Str) (fault : Option RmFault)

namespace ExplorerRequest

def apply (s : Sanitizer) (env : Env) (cwd : Str) (st : FileState) : ExplorerRequest → FileState
  | upload user client dir body fault =>
      st.upload s cwd user (some client) (some (join ['/'] dir)) body fault
  | delete user names fault => st.delete env cwd user (some (join ['/'] names)) fault

/-- The path is one of names that a directory can hold; a row has a name. -/
def Tidy : ExplorerRequest → Prop
  | upload _ _ dir _ _ => ∀ name ∈ dir, validName name = true
  | delete _ names _ => names ≠ [] ∧ ∀ name ∈ names, validName name = true

def applyStore (s : Sanitizer) (env : Env) (st : Store × List AuditEvent) :
    ExplorerRequest → Store × List AuditEvent
  | upload user client dir body fault =>
      let name := shorten (s.secureFilename client)
      if client ≠ [] ∧ s.secureFilename client ≠ [] ∧ st.1 dir = some .dir ∧
          st.1 (dir ++ [name]) ≠ some .dir then
        match fault with
        | .atOpen => st
        | .afterBytes n => (st.1.put (dir ++ [name]) (body.take n), st.2)
        | .none =>
            (st.1.put (dir ++ [name]) body,
              st.2 ++ [⟨user, "File Upload".toList, name,
                "Target Directory: /srv/nas/".toList ++ join ['/'] dir⟩])
      else st
  | delete user names fault =>
      if st.1 names = none then st
      else
        let event : AuditEvent := ⟨user, "File/Folder Deleted".toList, names.getLast?.getD [],
          "Target Directory: ".toList ++ locText (nasNames ++ names.dropLast)⟩
        if env.production = false then (st.1, st.2 ++ [event])
        else
          match fault with
          | none => (st.1.drop names [], st.2 ++ [event])
          | some f => (st.1.drop names f.left, st.2)

end ExplorerRequest

namespace FileState

def store (st : FileState) : Store := fun names =>
  match st.tree.lstat (nasNames ++ names) with
  | some .dir => some .dir
  | some .file => some (.file (st.contents (nasNames ++ names)))
  | _ => none

/-- The root of the store is a directory, and nothing below it is a link. -/
def Ready (t : Tree) : Prop := t.lstat nasNames = some .dir ∧ t.LinkFreeBelow nasNames

end FileState

end Table

section Paths

variable {t : Tree} {cwd : Str} {names : List Str}

theorem walk_ready (ready : FileState.Ready t) (budget : Nat) :
    t.walk budget [] nasNames = some (nasNames, budget) := by
  have srv : t.lstat ["srv".toList] = some .dir :=
    t.lstat_parent (show t.lstat (["srv".toList] ++ ["nas".toList]) = some .dir from ready.1)
  have nas : t.lstat (["srv".toList] ++ ["nas".toList]) = some .dir := ready.1
  have top : t.lstat [] = some .dir := rfl
  have names' : nasNames = ["srv".toList, "nas".toList] := rfl
  rw [names', Tree.walk_cons, if_neg (by simp [top]), if_neg (by decide), if_neg (by decide),
    List.nil_append, srv]
  dsimp only
  rw [Tree.walk_cons, if_neg (not_not_intro srv), if_neg (by decide), if_neg (by decide), nas]
  dsimp only
  rw [Tree.walk_nil]
  rfl

theorem resolve_ready (ready : FileState.Ready t) : t.resolve nasRoot = some nasNames := by
  have comps : components nasRoot = [] :: nasNames := by decide
  have top : t.lstat [] = some .dir := rfl
  rw [Tree.resolve, comps, Tree.walk_cons, if_neg (by simp [top]), if_pos (by decide),
    walk_ready ready]
  rfl

theorem resolve_names (ready : FileState.Ready t)
    (valid : ∀ name ∈ names, validName name = true) {found : Loc}
    (resolved : t.resolve (pathJoin nasRoot (join ['/'] names)) = some found) :
    found = nasNames ++ names ∧ (t.lstat (nasNames ++ names)).isSome = true := by
  rcases Option.map_eq_some_iff.mp (resolve_ready ready) with ⟨m, walked, place⟩
  rcases Option.map_eq_some_iff.mp resolved with ⟨last, whole, same⟩
  rw [pathJoin_nasRoot valid, components_append, Tree.walk_append, walked, Option.bind_some,
    place] at whole
  rw [← same]
  by_cases some : names = []
  · subst some
    have stay : t.walk m.2 nasNames (components (join ['/'] [])) = .some (nasNames, m.2) := by
      rw [show components (join ['/'] []) = [[]] by decide, Tree.walk_cons,
        if_neg (by simp [ready.1]), if_pos (by decide), Tree.walk_nil]
    rw [stay] at whole
    rw [← Option.some.inj whole, List.append_nil, ready.1]
    exact ⟨rfl, rfl⟩
  · rw [components_join valid some] at whole
    exact Tree.walk_below_names ready.2 valid ready.1 whole

theorem pathView_names (ready : FileState.Ready t) (action : FileAction) {node : Node}
    (found : t.lstat (nasNames ++ names) = some node) (some : names ≠ []) :
    pathView action t cwd (join ['/'] names) =
      .acts action (pathJoin nasRoot (join ['/'] names)) := by
  have rooted := resolve_ready ready
  rw [pathView, if_neg (join_ne_nil (store_valid found) some)]
  dsimp only
  rw [resolve_store rooted ready.1 ready.2 found, isInside_store rooted ready.1 ready.2 found]
  rfl

theorem opened_names (ready : FileState.Ready t) (valid : ∀ part ∈ names, validName part = true)
    {name : Str} (named : validName name = true) {place : Loc} :
    t.opened (pathJoin (pathJoin nasRoot (join ['/'] names)) name) = some place ↔
      place = nasNames ++ (names ++ [name]) ∧ t.lstat (nasNames ++ names) = some .dir ∧
        t.lstat (nasNames ++ (names ++ [name])) ≠ some .dir := by
  have relative := (Tree.validName_components named).1
  have proper := validName_spec named
  have nonempty := pathJoin_nasRoot_ne_nil (join ['/'] names)
  rw [Tree.opened_pathJoin named, ← List.append_assoc]
  by_cases isDir : t.lstat (nasNames ++ names) = some .dir
  · have resolved := resolve_store (resolve_ready ready) ready.1 ready.2 isDir
    rcases Option.map_eq_some_iff.mp resolved with ⟨⟨dir, left⟩, walked, same⟩
    dsimp only at same
    subst same
    rw [(Tree.walk_readFrom relative nonempty isDir).mpr walked, Option.bind_some, Tree.openName,
      if_neg (by simp [isDir, proper.2.1, proper.2.2.1])]
    cases entry : t.lstat (nasNames ++ names ++ [name]) with
    | none => simp [named, isDir, eq_comm]
    | some node =>
        cases node with
        | dir => simp
        | file => simp [isDir, eq_comm]
        | link target =>
            rw [List.append_assoc] at entry
            exact absurd entry (ready.2 (names ++ [name]) target)
  · constructor
    · intro opened
      rcases Option.bind_eq_some_iff.mp opened with ⟨m, walked, final⟩
      rw [Tree.openName] at final
      split at final
      next => cases final
      next free =>
        have here : t.lstat m.1 = some .dir := by
          by_contra other
          exact free (.inl other)
        have whole := (Tree.walk_readFrom relative nonempty here).mp walked
        have resolved : t.resolve (pathJoin nasRoot (join ['/'] names)) = some m.1 := by
          rw [Tree.resolve, whole, Option.map_some]
        rw [(resolve_names ready valid resolved).1] at here
        exact absurd here isDir
    · intro both
      exact absurd both.2.1 isDir

end Paths

section Steps

variable {s : Sanitizer} {env : Env} {cwd : Str} {st : FileState} {names : List Str}

theorem store_dir : st.store names = some .dir ↔ st.tree.lstat (nasNames ++ names) = some .dir := by
  unfold FileState.store
  split
  next found => simp [found]
  next found => simp [found]
  next other _ =>
    constructor
    · intro absurd'
      cases absurd'
    · intro found
      exact absurd found other

theorem store_none (ready : FileState.Ready st.tree) :
    st.store names = none ↔ st.tree.lstat (nasNames ++ names) = none := by
  unfold FileState.store
  cases found : st.tree.lstat (nasNames ++ names) with
  | none => simp
  | some node =>
      cases node with
      | dir => simp
      | file => simp
      | link target => exact absurd found (ready.2 names target)

def KeepsOutside (before after : FileState) : Prop :=
  ∀ loc, ¬nasNames <+: loc →
    after.tree.lstat loc = before.tree.lstat loc ∧ after.contents loc = before.contents loc

theorem KeepsOutside.refl (st : FileState) : KeepsOutside st st := fun _ _ => ⟨rfl, rfl⟩

theorem KeepsOutside.trans {first second third : FileState} (earlier : KeepsOutside first second)
    (later : KeepsOutside second third) : KeepsOutside first third := by
  intro loc outside
  exact ⟨(later loc outside).1.trans (earlier loc outside).1,
    (later loc outside).2.trans (earlier loc outside).2⟩

structure Becomes (before after : FileState) (store : Store) (audit : List AuditEvent) : Prop where
  ready : FileState.Ready after.tree
  store : after.store = store
  audit : after.audit = audit
  outside : KeepsOutside before after

theorem Becomes.same (ready : FileState.Ready st.tree) : Becomes st st st.store st.audit :=
  ⟨ready, rfl, rfl, KeepsOutside.refl st⟩

theorem becomes_write (ready : FileState.Ready st.tree) {name : Str}
    (valid : validName name = true) (isDir : st.tree.lstat (nasNames ++ names) = some .dir)
    (free : st.tree.lstat (nasNames ++ (names ++ [name])) ≠ some .dir) (bytes : List UInt8) :
    Becomes st (st.write (nasNames ++ (names ++ [name])) bytes)
      (st.store.put (names ++ [name]) bytes) st.audit := by
  have entry : st.tree.lstat (nasNames ++ names ++ [name]) = none ∨
      st.tree.lstat (nasNames ++ names ++ [name]) = some .file := by
    rw [List.append_assoc]
    cases found : st.tree.lstat (nasNames ++ (names ++ [name])) with
    | none => exact .inl rfl
    | some node =>
        cases node with
        | dir => exact absurd found free
        | file => exact .inr rfl
        | link target => exact absurd found (ready.2 _ target)
  have after (loc : Loc) : (st.write (nasNames ++ (names ++ [name])) bytes).tree.lstat loc =
      if loc = nasNames ++ (names ++ [name]) then some .file else st.tree.lstat loc := by
    have touched := Tree.lstat_addFile isDir valid entry loc
    rw [← Tree.touch_concat, List.append_assoc] at touched
    exact touched
  refine ⟨⟨?_, ?_⟩, ?_, rfl, ?_⟩
  · rw [after, if_neg, ready.1]
    intro same
    have lengths := congrArg List.length same
    simp at lengths
  · intro rest target
    rw [after]
    split
    · simp
    · exact ready.2 rest target
  · funext other
    unfold FileState.store Store.put
    rw [after]
    by_cases same : other = names ++ [name]
    · subst same
      simp [FileState.write]
    · have away : ¬nasNames ++ other = nasNames ++ (names ++ [name]) := by
        rwa [List.append_cancel_left_eq]
      simp only [FileState.write, if_neg same, if_neg away]
  · intro loc outside
    have away : ¬loc = nasNames ++ (names ++ [name]) := by
      intro same
      exact outside (same ▸ List.prefix_append _ _)
    rw [after, if_neg away]
    exact ⟨rfl, if_neg away⟩

theorem becomes_upload (ready : FileState.Ready st.tree) (user client : Str) {dir : List Str}
    (valid : ∀ name ∈ dir, validName name = true) (body : List UInt8) (fault : SaveFault) :
    Becomes st (st.upload s cwd user (some client) (some (join ['/'] dir)) body fault)
      ((ExplorerRequest.upload user client dir body fault).applyStore s env
        (st.store, st.audit)).1
      ((ExplorerRequest.upload user client dir body fault).applyStore s env
        (st.store, st.audit)).2 := by
  unfold ExplorerRequest.applyStore
  dsimp only
  split
  next applies =>
    rcases applies with ⟨selected, kept, isDir, free⟩
    have named := validName_shorten s kept
    rw [store_dir] at isDir
    rw [Ne, store_dir] at free
    have opened := (opened_names ready valid named).mpr ⟨rfl, isDir, free⟩
    have inside : isInsideNasRoot st.tree cwd (pathJoin nasRoot (join ['/'] dir)) = some true :=
      isInside_store (resolve_ready ready) ready.1 ready.2 isDir
    have saved : uploadFile s st.tree cwd user (some client) (some (join ['/'] dir)) =
        .saved (nasNames ++ (dir ++ [shorten (s.secureFilename client)]))
          ("Uploaded ".toList ++ shorten (s.secureFilename client))
          ⟨user, "File Upload".toList, shorten (s.secureFilename client),
            "Target Directory: ".toList ++ pathJoin nasRoot (join ['/'] dir)⟩ := by
      unfold uploadFile
      dsimp only
      rw [if_neg selected, if_neg kept, Option.getD_some, inside]
      dsimp only
      rw [opened]
    have shown : "Target Directory: ".toList ++ pathJoin nasRoot (join ['/'] dir) =
        "Target Directory: /srv/nas/".toList ++ join ['/'] dir := by
      rw [pathJoin_nasRoot valid]
      rfl
    rw [FileState.upload, saved, shown]
    cases fault with
    | none =>
        have step := becomes_write ready named isDir free body
        exact ⟨step.ready, step.store, rfl, step.outside⟩
    | atOpen => exact Becomes.same ready
    | afterBytes n => exact becomes_write ready named isDir free (body.take n)
  next refused =>
    have unchanged : st.upload s cwd user (some client) (some (join ['/'] dir)) body fault = st := by
      unfold FileState.upload
      split
      next place message event saved =>
        rcases uploadFile_saved saved with ⟨client', given, selected, kept, -, written⟩
        cases given
        have opened := (opened_names ready valid (validName_shorten s kept)).mp written
        refine absurd ⟨selected, kept, store_dir.mpr opened.2.1, ?_⟩ refused
        rw [Ne, store_dir]
        exact opened.2.2
      next => rfl
    rw [unchanged]
    exact Becomes.same ready

theorem spared_below (names : List Str) (left : List Loc) (other : List Str) :
    Tree.spared (nasNames ++ names) (left.map (nasNames ++ names ++ ·)) (nasNames ++ other) =
      Tree.spared names (left.map (names ++ ·)) other := by
  have under (a b : List Str) : (nasNames ++ a).isPrefixOf (nasNames ++ b) = a.isPrefixOf b := by
    rw [Bool.eq_iff_iff, List.isPrefixOf_iff_prefix, List.isPrefixOf_iff_prefix,
      List.prefix_append_right_inj]
  have behind : (left.map (nasNames ++ names ++ ·)).any ((nasNames ++ other).isPrefixOf ·) =
      (left.map (names ++ ·)).any (other.isPrefixOf ·) := by
    rw [List.any_map, List.any_map]
    simp only [Function.comp_def, List.append_assoc, under]
  rw [Tree.spared, Tree.spared, under, behind]

theorem becomes_remove (ready : FileState.Ready st.tree) (some : names ≠ []) (left : List Loc) :
    Becomes st
      { st with tree := st.tree.removeAll (nasNames ++ names) (left.map (nasNames ++ names ++ ·)) }
      (st.store.drop names left) st.audit := by
  have after (loc : Loc) := st.tree.lstat_removeAll
    (show nasNames ++ names ≠ [] by simp [some]) (left.map (nasNames ++ names ++ ·)) loc
  have apart {loc : Loc} (other : ¬nasNames ++ names <+: loc) :
      Tree.spared (nasNames ++ names) (left.map (nasNames ++ names ++ ·)) loc = true := by
    rw [Tree.spared, Bool.or_eq_true, Bool.not_eq_true', ← Bool.not_eq_true,
      List.isPrefixOf_iff_prefix]
    exact .inl other
  refine ⟨⟨?_, ?_⟩, ?_, rfl, ?_⟩
  · have above : ¬nasNames ++ names <+: nasNames := by
      intro below
      have longer := below.length_le
      rw [List.length_append] at longer
      have filled := List.length_pos_iff.mpr some
      omega
    rw [after, if_pos (apart above), ready.1]
  · intro rest target
    rw [after]
    split
    · exact ready.2 rest target
    · simp
  · funext other
    unfold FileState.store Store.drop
    dsimp only
    rw [after, spared_below]
    cases Tree.spared names (left.map (names ++ ·)) other with
    | true => rfl
    | false => rfl
  · intro loc outside
    have other : ¬nasNames ++ names <+: loc :=
      fun below => outside ((List.prefix_append nasNames names).trans below)
    rw [after, if_pos (apart other)]
    exact ⟨rfl, rfl⟩

theorem pathNames_names (valid : ∀ name ∈ names, validName name = true) (some : names ≠ []) :
    pathNames (pathJoin nasRoot (join ['/'] names)) = nasNames ++ names := by
  have own : pathNames (join ['/'] names) = names := by
    rw [pathNames, components_join valid some, List.filter_eq_self]
    intro name member
    exact decide_eq_true (validName_spec (valid name member)).1
  rw [pathJoin_nasRoot valid, pathNames_append, own]
  rfl

theorem removedAt_names (ready : FileState.Ready st.tree) (some : names ≠ []) {node : Node}
    (found : st.tree.lstat (nasNames ++ names) = .some node) :
    st.tree.removedAt (pathJoin nasRoot (join ['/'] names)) = .some (nasNames ++ names) := by
  have valid := store_valid found
  rcases List.eq_nil_or_concat names with none | ⟨front, name, whole⟩
  · exact absurd none some
  · rw [Tree.removedAt, pathNames_names valid some]
    rw [List.concat_eq_append] at whole
    subst whole
    have named := validName_spec (valid name (by simp))
    have parent : st.tree.lstat (nasNames ++ front) = .some .dir := by
      rw [← List.append_assoc] at found
      exact st.tree.lstat_parent found
    have here : name ≠ curdir := by
      intro same
      rw [same] at named
      exact absurd named.2.1 (by decide)
    rw [← List.append_assoc, List.getLast?_concat, List.dropLast_concat]
    dsimp only
    rw [if_neg (by simp [here, named.2.2.1]), Tree.walk_append, walk_ready ready,
      Option.bind_some, Tree.walk_below ready.2 _ parent]
    dsimp only
    rw [List.append_assoc, found]
    cases node with
    | dir => rfl
    | file => rfl
    | link target => exact absurd found (ready.2 _ target)

theorem basename_names {front : List Str} {name : Str} (valid : validName name = true) :
    basename (join ['/'] (front ++ [name])) = name := by
  have slash := (validName_spec valid).2.2.2
  have single : join ['/'] [name] = name := List.intercalate_singleton
  cases front with
  | nil =>
      rw [List.nil_append, single, basename, List.rtakeWhile_eq_self_iff]
      intro c member
      rw [bne_iff_ne]
      intro same
      exact slash (same ▸ member)
  | cons first front =>
      rw [join_append, single, List.singleton_append, basename_slash slash]

theorem dirname_names {front : List Str} {name : Str}
    (valid : ∀ part ∈ front ++ [name], validName part = true) :
    dirname (pathJoin nasRoot (join ['/'] (front ++ [name]))) = locText (nasNames ++ front) := by
  have slash := (validName_spec (valid name (by simp))).2.2.2
  have above : ∀ part ∈ nasNames ++ front, validName part = true := by
    intro part member
    rcases List.mem_append.mp member with root | inside
    · exact (show ∀ part ∈ nasNames, validName part = true by decide) part root
    · exact valid part (by simp [inside])
  have whole : pathJoin nasRoot (join ['/'] (front ++ [name])) =
      locText (nasNames ++ front) ++ '/' :: name := by
    rcases List.exists_cons_of_ne_nil (show front ++ [name] ≠ [] by simp) with ⟨first, rest, parts⟩
    have joined := locText_append nasNames (by decide) first rest
    have split := locText_append (nasNames ++ front) (by simp [nasNames]) name []
    have single : join ['/'] [name] = name := List.intercalate_singleton
    have root : locText nasNames = nasRoot := by decide
    rw [← parts, root] at joined
    rw [List.append_assoc, joined, single] at split
    rw [pathJoin_nasRoot valid]
    exact split
  have filled : nasNames ++ front ≠ [] := by simp [nasNames]
  have solid := join_ne_nil above filled
  rcases List.eq_nil_or_concat (join ['/'] (nasNames ++ front)) with none | ⟨init, c, text⟩
  · exact absurd none solid
  · rw [List.concat_eq_append] at text
    have last : (locText (nasNames ++ front)).getLast? = some c := by
      rw [locText, text, ← List.cons_append, List.getLast?_concat]
    rw [whole]
    apply dirname_slash slash last
    intro same
    have open' := join_unterminated above
    rw [text, same, ← Bool.not_eq_true] at open'
    exact open' (List.isSuffixOf_iff_suffix.mpr (List.suffix_append _ _))

theorem becomes_delete (ready : FileState.Ready st.tree) (user : Str) (some : names ≠ [])
    (valid : ∀ name ∈ names, validName name = true) (fault : Option RmFault) :
    Becomes st (st.delete env cwd user (.some (join ['/'] names)) fault)
      ((ExplorerRequest.delete user names fault).applyStore s env (st.store, st.audit)).1
      ((ExplorerRequest.delete user names fault).applyStore s env (st.store, st.audit)).2 := by
  unfold ExplorerRequest.applyStore
  dsimp only
  by_cases missing : st.store names = none
  · have gone := (store_none ready).mp missing
    have unchanged : st.delete env cwd user (.some (join ['/'] names)) fault = st := by
      unfold FileState.delete
      split
      next action absPath acted =>
        have written := (view_acts st.tree cwd _ .deleteFile action absPath acted).1
        rcases Option.ne_none_iff_exists'.mp (deleteFile_exists acted) with ⟨found, resolved⟩
        rw [written] at resolved
        have object := (resolve_names ready valid resolved).2
        rw [gone] at object
        cases object
      next => rfl
    rw [if_pos missing, unchanged]
    exact Becomes.same ready
  · rw [if_neg missing]
    rcases Option.ne_none_iff_exists'.mp (mt (store_none ready).mpr missing) with ⟨node, found⟩
    have acted : deleteFile st.tree cwd (join ['/'] names) =
        .acts .remove (pathJoin nasRoot (join ['/'] names)) :=
      pathView_names ready .remove found some
    have target := removedAt_names ready some found
    have event : (⟨user, "File/Folder Deleted".toList, basename (join ['/'] names),
        "Target Directory: ".toList ++ dirname (pathJoin nasRoot (join ['/'] names))⟩ :
          AuditEvent) =
        ⟨user, "File/Folder Deleted".toList, names.getLast?.getD [],
          "Target Directory: ".toList ++ locText (nasNames ++ names.dropLast)⟩ := by
      rcases List.eq_nil_or_concat names with none | ⟨front, name, whole⟩
      · exact absurd none some
      · rw [List.concat_eq_append] at whole
        subst whole
        rw [basename_names (valid name (by simp)), dirname_names valid, List.getLast?_concat,
          List.dropLast_concat]
        rfl
    rw [FileState.delete, Option.getD_some, acted]
    dsimp only
    rw [event]
    unfold FileState.runRm
    by_cases simulated : env.production = false
    · rw [if_pos simulated, if_pos simulated]
      exact ⟨ready, rfl, rfl, KeepsOutside.refl st⟩
    · rw [if_neg simulated, if_neg simulated, target]
      cases fault with
      | none =>
          have step := becomes_remove ready some []
          exact ⟨step.ready, step.store, rfl, step.outside⟩
      | some f =>
          have stops : ¬(sudoAnswer f.outcome).1 = true := by
            rw [f.fails]
            exact Bool.false_ne_true
          dsimp only
          rw [if_neg stops]
          exact becomes_remove ready some f.left

end Steps

section Runs

def runExplorer (s : Sanitizer) (env : Env) (cwd : Str) (st : FileState)
    (requests : List ExplorerRequest) : FileState :=
  requests.foldl (ExplorerRequest.apply s env cwd) st

theorem becomes_apply {s : Sanitizer} {env : Env} {cwd : Str} {st : FileState}
    {request : ExplorerRequest} (ready : FileState.Ready st.tree) (tidy : request.Tidy) :
    Becomes st (request.apply s env cwd st) (request.applyStore s env (st.store, st.audit)).1
      (request.applyStore s env (st.store, st.audit)).2 := by
  cases request with
  | upload user client dir body fault => exact becomes_upload ready user client tidy body fault
  | delete user names fault => exact becomes_delete ready user tidy.1 tidy.2 fault

theorem becomes_run {s : Sanitizer} {env : Env} {cwd : Str} {st : FileState}
    {requests : List ExplorerRequest} (ready : FileState.Ready st.tree)
    (tidy : ∀ request ∈ requests, request.Tidy) :
    Becomes st (runExplorer s env cwd st requests)
      (requests.foldl (ExplorerRequest.applyStore s env) (st.store, st.audit)).1
      (requests.foldl (ExplorerRequest.applyStore s env) (st.store, st.audit)).2 := by
  induction requests generalizing st with
  | nil => exact Becomes.same ready
  | cons request requests ih =>
      have step : Becomes st (request.apply s env cwd st) _ _ :=
        becomes_apply ready (tidy request List.mem_cons_self)
      have rest := ih step.ready fun other member => tidy other (List.mem_cons_of_mem request member)
      rw [step.store, step.audit] at rest
      exact ⟨rest.ready, rest.store, rest.audit, step.outside.trans rest.outside⟩

theorem downloaded_store {cwd : Str} {st : FileState} {names : List Str}
    (ready : FileState.Ready st.tree) (some : names ≠ [])
    (valid : ∀ name ∈ names, validName name = true) :
    st.downloaded cwd (join ['/'] names) = (st.store names).bind Stored.body := by
  cases found : st.tree.lstat (nasNames ++ names) with
  | none =>
      rw [(store_none ready).mpr found, FileState.downloaded]
      split
      next action absPath acted =>
        have written := (view_acts st.tree cwd _ .downloadFile action absPath acted).1
        cases resolved : st.tree.resolve absPath with
        | none => rfl
        | some loc =>
            rw [written] at resolved
            have object := (resolve_names ready valid resolved).2
            rw [found] at object
            cases object
      next => rfl
  | some node =>
      have acted : downloadFile st.tree cwd (join ['/'] names) =
          .acts .attach (pathJoin nasRoot (join ['/'] names)) :=
        pathView_names ready .attach found some
      rw [FileState.downloaded, acted]
      dsimp only
      rw [resolve_store (resolve_ready ready) ready.1 ready.2 found, Option.bind_some, found,
        FileState.store, found]
      cases node with
      | dir => rfl
      | file => rfl
      | link target => exact absurd found (ready.2 names target)

theorem filesPage_listed (db : CharData) {cwd : Str} {st : FileState} {names : List Str}
    (ready : FileState.Ready st.tree) (isDir : st.store names = some .dir) :
    ∃ page, filesPage db st.tree cwd (join ['/'] names) = some (nasNames ++ names, page) ∧
      (page.map FileEntry.name).Nodup ∧
      (∀ name, name ∈ page.map FileEntry.name ↔ st.store (names ++ [name]) ≠ none) ∧
      ∀ entry ∈ page, entry.isDir = decide (st.store (names ++ [entry.name]) = some .dir) := by
  rw [store_dir] at isDir
  have free := ready.2.descend names
  have shows := shows_filesList db free (join ['/'] names)
  refine ⟨_, filesPage_store (resolve_ready ready) ready.1 ready.2 isDir, shows.distinct, ?_, ?_⟩
  · intro name
    rw [shows.names, Ne, store_none ready, ← List.append_assoc, Option.isSome_iff_ne_none]
  · intro entry member
    rw [shows.kinds entry member, Bool.eq_iff_iff, beq_iff_eq, decide_eq_true_eq, store_dir,
      List.append_assoc]

/-- Along every run of requests that the explorer makes, the pages and the downloads show a
store of files by their names, with a call of `log_audit_event` for every upload and deletion
that succeeded, and nothing outside of it changes. -/
theorem explorer_as_store (db : CharData) (s : Sanitizer) (env : Env) (cwd : Str) (st : FileState)
    (requests : List ExplorerRequest) (ready : FileState.Ready st.tree)
    (tidy : ∀ request ∈ requests, request.Tidy) :
    let after := runExplorer s env cwd st requests
    let spec := requests.foldl (ExplorerRequest.applyStore s env) (st.store, st.audit)
    after.audit = spec.2 ∧ KeepsOutside st after ∧
      (∀ names, names ≠ [] → (∀ name ∈ names, validName name = true) →
        after.downloaded cwd (join ['/'] names) = (spec.1 names).bind Stored.body) ∧
      ∀ names, spec.1 names = some .dir →
        ∃ page, filesPage db after.tree cwd (join ['/'] names) = some (nasNames ++ names, page) ∧
          (page.map FileEntry.name).Nodup ∧
          (∀ name, name ∈ page.map FileEntry.name ↔ spec.1 (names ++ [name]) ≠ none) ∧
          ∀ entry ∈ page, entry.isDir = decide (spec.1 (names ++ [entry.name]) = some .dir) := by
  intro after spec
  have run : Becomes st after spec.1 spec.2 := becomes_run ready tidy
  refine ⟨run.audit, run.outside, ?_, ?_⟩
  · intro names some valid
    rw [← run.store]
    exact downloaded_store run.ready some valid
  · rw [← run.store]
    intro names isDir
    exact filesPage_listed db run.ready isDir

/-- A file that is uploaded twice, and one that is deleted again. -/
theorem explorer_as_store_twice :
    (runExplorer asciiSanitizer ⟨true, "dev".toList, "secret".toList⟩ "/".toList
        ⟨plainTree, fun _ => [], []⟩
        [.upload "eve".toList "../x y.txt".toList ["docs".toList] [1, 2] .none,
          .upload "bob".toList "z".toList [] [7] .none,
          .upload "bob".toList "x_y.txt".toList ["docs".toList] [3] .none,
          .delete "bob".toList ["z".toList] none]).downloaded "/".toList "docs/x_y.txt".toList =
      some [3] := by
  have run := explorer_as_store .ascii asciiSanitizer ⟨true, "dev".toList, "secret".toList⟩
    "/".toList ⟨plainTree, fun _ => [], []⟩
    [.upload "eve".toList "../x y.txt".toList ["docs".toList] [1, 2] .none,
      .upload "bob".toList "z".toList [] [7] .none,
      .upload "bob".toList "x_y.txt".toList ["docs".toList] [3] .none,
      .delete "bob".toList ["z".toList] none]
    ⟨by decide +kernel, fun names target => plainTree_linkFree _ target⟩
    (by
      intro request member
      simp only [List.mem_cons, List.not_mem_nil, or_false] at member
      rcases member with rfl | rfl | rfl | rfl <;> unfold ExplorerRequest.Tidy <;> decide)
  have served := run.2.2.1 ["docs".toList, "x_y.txt".toList] (by decide) (by decide)
  exact served.trans (by decide +kernel)

end Runs

end SmolNas.App
