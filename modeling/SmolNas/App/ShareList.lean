import SmolNas.App.ShareRuns
import SmolNas.Py.ConfigWithout

/-! `get_shares`, which reads `smb.conf` with the parser, against the scan with which
`delete_share_from_conf` removes a share. -/

namespace SmolNas.App

open Py Py.ConfigParser

section Listing

structure ShareInfo where
  name : Str
  path : Str
  validUsers : Str
  readOnly : Str
  guestOk : Str
  deriving DecidableEq, Repr

/-- The entry of one share, unless a value cannot be interpolated. -/
def shareOf (db : CharData) (config : State) (name : Str) : Option ShareInfo := do
  let path ← config.get db name "path".toList "?".toList
  let validUsers ← config.get db name "valid users".toList "Everyone".toList
  let readOnly ← config.get db name "read only".toList "yes".toList
  let guestOk ← config.get db name "guest ok".toList "no".toList
  return ⟨name, path, validUsers, readOnly, guestOk⟩

/-- The loop over the sections; an error ends it. -/
def listShares (db : CharData) (config : State) : List Str → List ShareInfo
  | [] => []
  | name :: names =>
      if reservedNames.contains name then listShares db config names
      else
        match shareOf db config name with
        | none => []
        | some share => share :: listShares db config names

def getShares (db : CharData) (conf : Str) : List ShareInfo :=
  match ConfigParser.read db conf with
  | none => []
  | some config => listShares db config (config.sections.map Prod.fst)

end Listing

section Tracking

variable {db : CharData} {n : Str}

/-- The scan skips a line exactly when the parser, after it, is in the section; and
the header that ends a skipped block is not indented deeper than the option at which
the parser stood before the block. -/
def tracks (db : CharData) (n : Str) : State → Bool → State → List Str → Bool
  | _, _, _, [] => true
  | config, skip, before, line :: lines =>
      match readLine db config line with
      | none => true
      | some config =>
          let next := skips n skip line
          (next == (config.cursect == some n)) && !(skip && !next && continues before line) &&
            tracks db n config next (if next then before else config) lines

def SamePlace (a b : State) : Prop :=
  a.cursect = b.cursect ∧ a.optname = b.optname ∧ a.indentLevel = b.indentLevel

theorem continues_samePlace {a b : State} (same : SamePlace a b) (line : Str) :
    continues a line = continues b line := by
  rw [continues, continues, State.openOption, State.openOption, same.1, same.2.1, same.2.2]

/-- The parser reads what the scan keeps as it reads the whole file, but for the
section. The induction is on the lines; while the scan skips, the reader of the
kept lines stays where it was before the block. -/
theorem follows_deleteScan (proper : n ≠ defaultSection) (lines : List Str)
    {config before rest final : State} {skip : Bool} (follows : Follows n skip config rest)
    (place : SamePlace rest before)
    (inside : skip = true → config.cursect = some n)
    (tracked : tracks db n config skip before lines = true)
    (read : readLines db config lines = some final) :
    ∃ final' last, readLines db rest (deleteScan n skip lines) = some final' ∧
      Follows n last final final' := by
  induction lines generalizing config before rest skip with
  | nil =>
      cases read
      exact ⟨rest, skip, rfl, follows⟩
  | cons line lines ih =>
      obtain ⟨next, first, later⟩ := Option.bind_eq_some_iff.mp read
      rw [tracks, first] at tracked
      simp only [Bool.and_eq_true, beq_iff_eq, Bool.not_eq_true', Bool.and_eq_false_iff,
        Bool.not_eq_false'] at tracked
      obtain ⟨⟨agree, level⟩, tracked⟩ := tracked
      rw [deleteScan]
      cases skipped : skips n skip line with
      | true =>
          rw [skipped] at agree tracked
          have here : next.cursect = some n := by simpa using agree.symm
          rw [if_pos rfl]
          exact ih (follows_skip follows first here proper) place (fun _ => here) tracked later
      | false =>
          rw [skipped] at agree tracked level
          have away : next.cursect ≠ some n := by simpa using agree.symm
          rw [if_neg Bool.false_ne_true, readLines]
          obtain ⟨rest', readRest, follows'⟩ :
              ∃ rest', readLine db rest line = some rest' ∧ Follows n false next rest' := by
            cases skip with
            | false => exact follows_readLine follows first away
            | true =>
                have shallow : continues before line = false := by simpa using level
                exact follows_return follows first (inside rfl) away
                  ((continues_samePlace place line).trans shallow)
          rw [readRest]
          exact ih follows' (follows'.same rfl) (by simp) tracked later

end Tracking

section Shares

variable {db : CharData} {n : Str}

theorem shareOf_name {config : State} {name : Str} {share : ShareInfo}
    (found : shareOf db config name = some share) : share.name = name := by
  simp only [shareOf, Option.bind_eq_bind, Option.bind_eq_some_iff, Option.pure_def,
    Option.some.injEq] at found
  obtain ⟨_, -, _, -, _, -, _, -, rfl⟩ := found
  rfl

theorem mem_listShares {config : State} {names : List Str} {share : ShareInfo}
    (member : share ∈ listShares db config names) :
    share.name ∈ names ∧ reservedNames.contains share.name = false ∧
      shareOf db config share.name = some share := by
  induction names with
  | nil => cases member
  | cons name names ih =>
      rw [listShares] at member
      split at member
      next =>
        obtain ⟨later, free, found⟩ := ih member
        exact ⟨by simp [later], free, found⟩
      next free =>
        split at member
        next => cases member
        next first found =>
          rcases List.mem_cons.mp member with rfl | later
          · rw [shareOf_name found]
            exact ⟨by simp, by simpa using free, found⟩
          · obtain ⟨later, free, found⟩ := ih later
            exact ⟨by simp [later], free, found⟩

theorem shareOf_follows {skip : Bool} {full rest : State} (follows : Follows n skip full rest)
    {name : Str} (other : name ≠ n) : shareOf db rest name = shareOf db full name := by
  simp only [shareOf, State.get, rawValue_follows follows other]

theorem listShares_follows {skip : Bool} {full rest : State} (follows : Follows n skip full rest)
    {share : ShareInfo} (own : shareOf db full n = some share)
    (free : reservedNames.contains n = false) (names : List Str) :
    listShares db rest (names.filter (· != n)) =
      (listShares db full names).filter (·.name != n) := by
  induction names with
  | nil => rfl
  | cons name names ih =>
      by_cases same : name = n
      · subst same
        have gone : (share.name != name) = false := by simp [shareOf_name own]
        rw [List.filter_cons, if_neg (by simp), ih, listShares, free, if_neg Bool.false_ne_true, own]
        simp only
        rw [List.filter_cons, gone, if_neg Bool.false_ne_true]
      · rw [List.filter_cons, if_pos (by simp [same]), listShares, listShares,
          shareOf_follows follows same]
        split
        · exact ih
        · split
          · rfl
          next found =>
            have kept := shareOf_name found
            rw [List.filter_cons, if_pos (by simp [kept, same]), ih]

/-- After the deletion of a listed share the others are listed as before, wherever
the scan tracks the parser. -/
theorem delete_lists_others (db : CharData) (conf n : Str)
    (readable : (ConfigParser.read db conf).isSome = true)
    (listed : n ∈ (getShares db conf).map ShareInfo.name)
    (tracked : tracks db n .empty false .empty (readlines conf) = true) :
    getShares db (deleteShareFromConf n conf) = (getShares db conf).filter (·.name != n) := by
  obtain ⟨config, parsed⟩ := Option.isSome_iff_exists.mp readable
  obtain ⟨lines, clean⟩ := Option.filter_eq_some_iff.mp parsed
  have before : getShares db conf = listShares db config (config.sections.map Prod.fst) := by
    rw [getShares, parsed]
  rw [before] at listed ⊢
  obtain ⟨share, member, same⟩ := List.mem_map.mp listed
  obtain ⟨present, free, own⟩ := mem_listShares member
  rw [same] at present free own
  have proper : n ≠ defaultSection := by
    obtain ⟨s, inside, name⟩ := List.mem_map.mp present
    rw [← name]
    exact noDefault_readLines (by simp [NoDefault, State.empty]) lines s inside
  have start : Follows n false State.empty State.empty :=
    ⟨rfl, rfl, id, fun _ => ⟨rfl, rfl, rfl⟩⟩
  obtain ⟨config', last, read', follows⟩ := follows_deleteScan proper (readlines conf) start
    ⟨rfl, rfl, rfl⟩ (by simp) tracked lines
  have clean' : config'.failed = false := by
    rw [← Bool.not_eq_true]
    intro failed
    rw [follows.failed failed] at clean
    cases clean
  have after : ConfigParser.read db (deleteShareFromConf n conf) = some config' := by
    rw [ConfigParser.read, readlines_deleteShare, read']
    simp [Option.filter, clean']
  have names : config'.sections.map Prod.fst = (config.sections.map Prod.fst).filter (· != n) := by
    rw [follows.sections, List.filter_map]
    rfl
  calc
    getShares db (deleteShareFromConf n conf) =
        listShares db config' (config'.sections.map Prod.fst) := by rw [getShares, after]
    _ = listShares db config' ((config.sections.map Prod.fst).filter (· != n)) := by rw [names]
    _ = (listShares db config (config.sections.map Prod.fst)).filter (·.name != n) :=
      listShares_follows follows own free _

def twoShares : Str := "[a]\npath = /a\n[b]\npath = /b\n".toList

theorem delete_lists_others_b :
    getShares .ascii (deleteShareFromConf "a".toList twoShares) =
      (getShares .ascii twoShares).filter (·.name != "a".toList) :=
  delete_lists_others .ascii twoShares "a".toList (by decide +kernel) (by decide +kernel)
    (by decide +kernel)

/-- A header with a comment after it is a header for the parser only: the deletion
of the share before it takes its section along. -/
theorem delete_takes_neighbour :
    let conf := "[a]\npath = /a\n[b] ; second\npath = /b\n".toList
    (ConfigParser.read .ascii conf).isSome = true ∧
      "a".toList ∈ (getShares .ascii conf).map ShareInfo.name ∧
      getShares .ascii (deleteShareFromConf "a".toList conf) ≠
        (getShares .ascii conf).filter (·.name != "a".toList) := by
  decide +kernel

end Shares

end SmolNas.App
