import SmolNas.App.SettingsReported
import SmolNas.App.SettingsWriters
import SmolNas.App.ShareStore
import SmolNas.Py.ConfigTable

/-! `smb.conf` as a table of sections: what its three writers do to the table, and what its two
readers show of it. -/

namespace SmolNas.App

open Py Py.ConfigParser Lib

section Lines

variable {db : CharData} {line : Str}

/-- The scan of the update and the parser see the same in a line. -/
def agrees (db : CharData) (line : Str) : Bool :=
  match plainLine db line with
  | .skip => !isSetting line
  | .header name => !startswith name "global]".toList
  | .option key _ =>
      if keysToUpdate.contains key then isSetting line && settingKey line == key
      else !isSetting line
  | .other => false

theorem plainLine_chomp (line : Str) : plainLine db (chomp line) = plainLine db line := by
  unfold plainLine
  rw [isComment_chomp, strip_chomp]
  by_cases blank : strip line = []
  · rw [blank, beq_self_eq_true, Bool.or_true, if_pos rfl, if_pos rfl]
  · rw [indentOf_chomp blank]

theorem agrees_chomp (line : Str) : agrees db (chomp line) = agrees db line := by
  have same : isSetting (chomp line) = isSetting line ∧
      (isSetting line = true → settingKey (chomp line) = settingKey line) := by
    unfold chomp
    split
    next last =>
      rcases List.getLast?_eq_some_iff.mp last with ⟨w, whole⟩
      rw [whole, List.dropLast_concat, isSetting_feed]
      refine ⟨rfl, ?_⟩
      intro setting
      rw [settingKey_feed (setting_assigns setting).1]
    next => exact ⟨rfl, fun _ => rfl⟩
  unfold agrees
  rw [plainLine_chomp, same.1]
  cases plainLine db line with
  | skip => rfl
  | header name => rfl
  | other => rfl
  | option key value =>
      cases setting : isSetting line with
      | false => rfl
      | true =>
          dsimp only
          rw [same.2 setting]

theorem plainLine_header {name : Str} (kind : plainLine db line = .header name) :
    isSectionLine line = true ∧ sectionText line = name ∧ name ≠ [] ∧ name ≠ defaultSection := by
  unfold plainLine at kind
  split at kind
  · cases kind
  split at kind
  next bracket =>
    dsimp only at kind
    split at kind
    next named =>
      cases kind
      simp only [Bool.and_eq_true, beq_iff_eq, bne_iff_ne] at named
      refine ⟨?_, rfl, named.1.2, named.2⟩
      rw [isSectionLine, bracket, named.1.1.2]
      rfl
    next => cases kind
  next =>
    split at kind
    · split at kind
      · cases kind
      · split at kind <;> cases kind
    · cases kind

theorem plainLine_bracket (plain : plainLine db line ≠ .other)
    (kind : ∀ name, plainLine db line ≠ .header name) :
    startswith (strip line) ['['] = false := by
  rw [← Bool.not_eq_true]
  intro bracket
  unfold plainLine at plain kind
  split at plain
  next skipped =>
    rcases List.isPrefixOf_iff_prefix.mp bracket with ⟨rest, whole⟩
    rw [isComment, ← whole] at skipped
    cases skipped
  next filled =>
    dsimp only at plain
    split at plain
    next named =>
      apply kind ((strip line).drop 1).dropLast
      rw [if_neg filled, if_pos bracket]
      dsimp only
      rw [if_pos named]
    next => exact absurd rfl plain

theorem isHeader_bracket (other : startswith (strip line) ['['] = false) :
    isHeader line = false := by
  rw [← Bool.not_eq_true]
  intro header
  rcases (isHeader_iff line).mp header with ⟨rest, whole, -⟩
  rw [whole] at other
  cases other

end Lines

section Tables

variable {db : CharData} {conf : Str}

def plainLines (db : CharData) (conf : Str) : List PlainLine := (readlines conf).map (plainLine db)

/-- Every line is plain, and read alike by the parser and by the scan of the update. -/
def tidy (db : CharData) (conf : Str) : Bool :=
  (readlines conf).all (agrees db) && opens (plainLines db conf)

def tableOf (db : CharData) (conf : Str) : Table :=
  ((plainLines db conf).foldl Table.step ([], none)).1

/-- The results up to the first that is missing. -/
def leading {A : Type} (results : List (Option A)) : List A :=
  (results.takeWhile Option.isSome).reduceOption

def tableShare (db : CharData) (table : Table) (name : Str) : Option ShareInfo := do
  let get (key fallback : String) : Option Str :=
    if table.text name key.toList = none then some fallback.toList
    else table.value db name key.toList
  let path ← get "path" "?"
  let validUsers ← get "valid users" "Everyone"
  let readOnly ← get "read only" "yes"
  let guestOk ← get "guest ok" "no"
  return ⟨name, path, validUsers, readOnly, guestOk⟩

/-- The shares of a table, up to the first with a value that cannot be interpolated. -/
def tableShares (db : CharData) (table : Table) : List ShareInfo :=
  leading (((table.map Prod.fst).filter (!reservedNames.contains ·)).map (tableShare db table))

/-- The options of `[global]`, up to the first that cannot be interpolated. An option is looked
up by its name in lower case. -/
def tableSettings (db : CharData) (table : Table) : List (Str × Str) :=
  leading (((table.options globalSection).map Prod.fst).map fun name =>
    (table.value db globalSection (db.lower name)).map fun value => (name, value))

theorem agrees_plain {line : Str} (agree : agrees db line = true) : plainLine db line ≠ .other := by
  intro other
  rw [agrees, other] at agree
  cases agree

theorem read_tidy (tidy' : tidy db conf = true) :
    ∃ config current, ConfigParser.read db conf = some config ∧
      ReadsAs config (tableOf db conf, current) := by
  rw [tidy, Bool.and_eq_true, List.all_eq_true] at tidy'
  have start : ReadsAs State.empty ([], none) := ⟨rfl, rfl, rfl, by simp, rfl, .inl rfl⟩
  rcases readsAs_readLines start (fun line member => agrees_plain (tidy'.1 line member))
    (.inr tidy'.2) with ⟨config, lines, reads⟩
  refine ⟨config, _, ?_, reads⟩
  rw [ConfigParser.read, lines, Option.filter_some, reads.failed]
  rfl

theorem listShares_leading (config : State) (names : List Str) :
    listShares db config names =
      leading ((names.filter (!reservedNames.contains ·)).map (shareOf db config)) := by
  induction names with
  | nil => rfl
  | cons name names ih =>
      rw [listShares]
      split
      next reserved =>
        rw [ih, List.filter_cons_of_neg (by rw [reserved]; exact Bool.false_ne_true)]
      next other =>
        rw [List.filter_cons_of_pos (by simpa using other), List.map_cons]
        cases found : shareOf db config name with
        | none => rfl
        | some share =>
            rw [ih]
            rfl

theorem globalItems_leading (config : State) (names : List Str) :
    globalItems db config names = leading (names.map fun name =>
      (reportedValue db config name).map fun value => (name, value)) := by
  induction names with
  | nil => rfl
  | cons name names ih =>
      rw [globalItems_cons, List.map_cons, ih]
      cases reportedValue db config name with
      | none => rfl
      | some value => rfl

theorem tableShare_eq {config : State} {table : Table} (same : rawValue config = table.text)
    (name : Str) : shareOf db config name = tableShare db table name := by
  have get (key fallback : String) (written : isWrittenKey key.toList = true) :
      config.get db name key.toList fallback.toList =
        if table.text name key.toList = none then some fallback.toList
        else table.value db name key.toList := by
    rw [State.get, lower_writtenKey written, same, Table.value]
    cases table.text name key.toList with
    | none => rfl
    | some text => rfl
  rw [shareOf, get "path" "?" (by decide), get "valid users" "Everyone" (by decide),
    get "read only" "yes" (by decide), get "guest ok" "no" (by decide)]
  rfl

theorem readers_tidy (tidy' : tidy db conf = true) :
    getShares db conf = tableShares db (tableOf db conf) ∧
      getSambaGlobal db conf = tableSettings db (tableOf db conf) := by
  rcases read_tidy tidy' with ⟨config, current, read, reads⟩
  have text : rawValue config = (tableOf db conf).text := reads.text
  have options : (tableOf db conf).options globalSection =
      values ((config.sections.lookup globalSection).getD []) := reads.options globalSection
  constructor
  · have names : config.sections.map Prod.fst = (tableOf db conf).map Prod.fst := reads.names
    rw [getShares, read]
    dsimp only
    rw [listShares_leading, names, tableShares, funext (tableShare_eq text)]
  · have own : optionNames config = ((tableOf db conf).options globalSection).map Prod.fst := by
      rw [options, optionNames, reads.defaults, values, List.map_map]
      exact List.append_nil _
    rw [getSambaGlobal, read]
    dsimp only
    split
    · rw [globalItems_leading, own, tableSettings]
      simp only [reportedValue, text, Table.value]
    next missing =>
      have absent : config.sections.lookup globalSection = none := by
        rw [List.lookup_eq_none_iff]
        intro section' member
        rw [bne_iff_ne]
        rintro same
        exact missing (List.any_eq_true.mpr ⟨section', member, by simp [same]⟩)
      rw [tableSettings, options, absent]
      rfl

end Tables

section Delete

variable {db : CharData} {n : Str}

theorem skips_plainLine {line : Str} (plain : plainLine db line ≠ .other) (skip : Bool) :
    skips n skip line = (plainLine db line).within n skip := by
  cases kind : plainLine db line with
  | header name =>
      rcases plainLine_header kind with ⟨opens, text, -⟩
      rw [skips, opens, if_pos rfl, text]
      rfl
  | other => exact absurd kind plain
  | skip =>
      have other := plainLine_bracket plain (by simp [kind])
      rw [skips, isSectionLine, other, Bool.false_and, if_neg Bool.false_ne_true]
      rfl
  | option key value =>
      have other := plainLine_bracket plain (by simp [kind])
      rw [skips, isSectionLine, other, Bool.false_and, if_neg Bool.false_ne_true]
      rfl

theorem map_deleteScan {lines : List Str} (plain : ∀ line ∈ lines, plainLine db line ≠ .other)
    (skip : Bool) :
    (deleteScan n skip lines).map (plainLine db) = dropSection n skip (lines.map (plainLine db)) := by
  induction lines generalizing skip with
  | nil => rfl
  | cons line lines ih =>
      have later := fun other member => plain other (List.mem_cons_of_mem line member)
      rw [deleteScan, List.map_cons, dropSection, skips_plainLine (plain line List.mem_cons_self)]
      split
      · exact ih later _
      · rw [List.map_cons, ih later]

theorem tidy_delete {conf : Str} (tidy' : tidy db conf = true) (n : Str) :
    tidy db (deleteShareFromConf n conf) = true ∧
      tableOf db (deleteShareFromConf n conf) = (tableOf db conf).remove n := by
  have both := tidy'
  rw [tidy, Bool.and_eq_true, List.all_eq_true] at both
  have lines : plainLines db (deleteShareFromConf n conf) =
      dropSection n false (plainLines db conf) := by
    rw [plainLines, readlines_deleteShare,
      map_deleteScan fun line member => agrees_plain (both.1 line member)]
    rfl
  constructor
  · rw [tidy, lines, opens_dropSection n (.inr both.2), Bool.and_true, readlines_deleteShare,
      List.all_eq_true]
    intro line member
    exact both.1 line ((deleteScan_sublist n false _).subset member)
  · rw [tableOf, lines]
    exact foldl_dropSection _ rfl (by simp) fun _ => ⟨rfl, by simp⟩

end Delete

section Update

variable {db : CharData} {newConfig : List (Str × Str)} {line : Str}

theorem plainLine_field {key : Str} (written : isWrittenKey key = true) (value : Str) :
    plainLine db (field key value) = .option key (strip value) := by
  rcases strip_field written value with ⟨t, text, same⟩
  rcases writtenKey_cons written with ⟨c, rest, whole, hash, semicolon, bracket⟩
  have first : strip (field key value) = c :: (rest ++ ' ' :: '=' :: t) := by
    rw [text, whole, List.cons_append]
  have other {d : Char} (away : c ≠ d) : startswith (strip (field key value)) [d] = false := by
    have unlike : (d == c) = false := beq_eq_false_iff_ne.mpr away.symm
    rw [first, startswith, List.isPrefixOf, unlike, Bool.false_and]
  have filled : (strip (field key value) == []) = false := by
    rw [first]
    rfl
  have named : key ≠ [] := by simp [whole]
  rw [plainLine, isComment, other hash, other semicolon, other bracket, filled,
    if_neg (by decide), if_neg (by decide), indentOf_field written, if_pos (by decide), text,
    optionParts_field written, same]
  dsimp only
  rw [if_neg named, lower_writtenKey written]

theorem plainLine_feed (w : Str) : plainLine db (w ++ ['\n']) = plainLine db w := by
  rw [← plainLine_chomp (w ++ ['\n']), chomp_concat]

theorem isGlobalLine_name {name : Str} (text : strip line = '[' :: name ++ [']'])
    (other : startswith name "global]".toList = false) :
    isGlobalLine line = (name == globalSection) := by
  rw [Bool.eq_iff_iff, beq_iff_eq, isGlobalLine, startswith, text, List.isPrefixOf_iff_prefix]
  have shape : "[global]".toList = '[' :: (globalSection ++ [']']) := by decide
  rw [shape, List.cons_append, List.cons_prefix_cons]
  constructor
  · rintro ⟨-, rest, whole⟩
    rcases List.eq_nil_or_concat rest with none | ⟨front, last, parts⟩
    · subst none
      rw [List.append_nil] at whole
      exact (List.append_inj' whole rfl).1.symm
    · rw [List.concat_eq_append] at parts
      rw [parts, ← List.append_assoc] at whole
      have inside := (List.append_inj' whole rfl).1
      rw [← Bool.not_eq_true] at other
      exact absurd (List.isPrefixOf_iff_prefix.mpr ⟨front, inside⟩) other
  · intro same
    rw [same]
    exact ⟨rfl, List.prefix_refl _⟩

theorem update_line (all : GivesAll newConfig) (agree : agrees db line = true) (scan : Bool) :
    let inside := (plainLine db line).within globalSection scan
    let written := (replacement newConfig (entersGlobal scan line) line).getD line
    entersGlobal scan line = inside ∧ agrees db written = true ∧
      plainLine db written =
        if inside then (plainLine db line).renew (newValue newConfig) else plainLine db line := by
  have plain := agrees_plain agree
  dsimp only
  cases kind : plainLine db line with
  | other => exact absurd kind plain
  | header name =>
      rcases plainLine_header kind with ⟨opens, text, -⟩
      have header := isHeader_section opens
      have other : startswith name "global]".toList = false := by
        rw [agrees, kind] at agree
        simpa using agree
      have shape := sectionLine_text opens
      rw [text] at shape
      have enters : entersGlobal scan line = (name == globalSection) := by
        rw [entersGlobal, isGlobalLine_name shape other, opens]
        cases name == globalSection <;> rfl
      have kept := (lineAfter_header newConfig (entersGlobal scan line) header).1
      rw [kept, Option.getD_none, kind]
      refine ⟨enters, agree, ?_⟩
      split <;> rfl
  | skip =>
      have header := isHeader_bracket (plainLine_bracket plain (by simp [kind]))
      have enters := entersGlobal_plain header scan
      have setting : isSetting line = false := by
        rw [agrees, kind] at agree
        simpa using agree
      have kept : replacement newConfig (entersGlobal scan line) line = none := by
        rcases written_cases all (entersGlobal scan line) line with none | ⟨-, found, -⟩
        · exact none
        · rw [setting] at found
          cases found
      rw [kept, Option.getD_none, kind]
      refine ⟨enters, agree, ?_⟩
      split <;> rfl
  | option key value =>
      have header := isHeader_bracket (plainLine_bracket plain (by simp [kind]))
      have enters := entersGlobal_plain header scan
      refine ⟨enters, ?_⟩
      rw [PlainLine.within_option, enters]
      have both := agree
      rw [agrees, kind] at both
      dsimp only at both
      rcases written_cases all scan line with none | ⟨inside, setting, new, given, flat, written⟩
      · rw [none, Option.getD_none, kind]
        refine ⟨agree, ?_⟩
        split
        next inside =>
          -- the key is none that the update writes
          rw [inside, replacement_global] at none
          split at none
          next setting =>
            rcases all _ (setting_assigns setting).2 with ⟨new, given, -⟩
            rw [given] at none
            cases none
          next setting =>
            rw [Bool.eq_false_iff.mpr setting] at both
            split at both
            · cases both
            next unknown =>
              rw [PlainLine.renew, renewed, newValue, if_neg unknown]
              rfl
        next => rfl
      · rw [written, Option.getD_some, inside, if_pos rfl]
        have known := (setting_assigns setting).2
        have same : settingKey line = key := by
          rw [setting] at both
          split at both
          next => simpa using both
          next => cases both
        rw [same] at known given ⊢
        rcases isSetting_settingLine known new with ⟨again, own⟩
        have read : plainLine db (settingLine key new) = .option key (strip new) := by
          rw [show settingLine key new = field key new ++ ['\n'] from rfl, plainLine_feed,
            plainLine_field (keysToUpdate_written key known)]
        constructor
        · rw [agrees, read]
          dsimp only
          rw [if_pos (List.contains_iff_mem.mpr known), again, own, beq_self_eq_true]
          rfl
        · rw [read, PlainLine.renew, renewed, newValue, if_pos (List.contains_iff_mem.mpr known),
            given]
          rfl

theorem map_updateScan (all : GivesAll newConfig) {lines : List Str}
    (agree : ∀ line ∈ lines, agrees db line = true) (scan : Bool) :
    (updateScan newConfig scan lines).all (agrees db) = true ∧
      (updateScan newConfig scan lines).map (plainLine db) =
        renewSection globalSection (newValue newConfig) scan (lines.map (plainLine db)) := by
  induction lines generalizing scan with
  | nil => exact ⟨rfl, rfl⟩
  | cons line lines ih =>
      rcases update_line all (agree line List.mem_cons_self) scan with ⟨enters, kept, read⟩
      rcases ih (fun other member => agree other (List.mem_cons_of_mem line member))
        (entersGlobal scan line) with ⟨later, rest⟩
      rw [updateScan, List.all_cons, kept, later, List.map_cons, read, rest, enters]
      exact ⟨rfl, rfl⟩

theorem tidy_update {conf : Str} (tidy' : tidy db conf = true) (all : GivesAll newConfig) :
    tidy db (updateSambaGlobalConf newConfig conf) = true ∧
      tableOf db (updateSambaGlobalConf newConfig conf) =
        (tableOf db conf).renew globalSection (newValue newConfig) := by
  rw [tidy, Bool.and_eq_true, List.all_eq_true] at tidy'
  rcases map_updateScan all tidy'.1 false with ⟨kept, read⟩
  have lines : plainLines db (updateSambaGlobalConf newConfig conf) =
      renewSection globalSection (newValue newConfig) false (plainLines db conf) := by
    rw [plainLines, readlines_updateSambaGlobalConf all, read]
    rfl
  constructor
  · rw [tidy, lines, opens_renewSection, tidy'.2, readlines_updateSambaGlobalConf all, kept]
    rfl
  · rw [tableOf, lines]
    exact foldl_renewSection _ rfl rfl rfl

end Update

section Add

variable {db : CharData} {conf : Str}

theorem settingKey_field {key : Str} (written : isWrittenKey key = true) (value : Str) :
    settingKey (field key value) = key := by
  have front : (field key value).takeWhile (· != '=') = "   ".toList ++ (key ++ [' ']) := by
    have plain : ∀ c ∈ "   ".toList ++ (key ++ [' ']), (c != '=') = true := by
      intro c member
      rw [bne_iff_ne]
      intro same
      rw [same] at member
      rcases List.mem_append.mp member with blanks | rest
      · exact absurd blanks (by decide)
      · rcases List.mem_append.mp rest with inside | blank
        · exact writtenKey_other written (by decide) inside
        · exact absurd blank (by decide)
    have split : field key value = ("   ".toList ++ (key ++ [' '])) ++ '=' :: ' ' :: value := by
      simp [field]
    rw [split, List.takeWhile_append_of_pos plain, List.takeWhile_cons_of_neg (by decide),
      List.append_nil]
  have lead : lstrip ("   ".toList ++ (key ++ [' '])) = lstrip (key ++ [' ']) := rfl
  rw [settingKey, front, strip, lead, lstrip_writtenKey written, rstrip_writtenKey written]

theorem agrees_field {key : Str} (written : isWrittenKey key = true)
    (unknown : keysToUpdate.contains key = false) (value : Str) :
    agrees db (field key value) = true := by
  rw [agrees, plainLine_field written]
  dsimp only
  rw [unknown, if_neg Bool.false_ne_true, isSetting, settingKey_field written, unknown,
    Bool.and_false]
  rfl

theorem plainLine_name {name : Str} (some : name ≠ []) (proper : name ≠ defaultSection) :
    plainLine db ('[' :: name ++ [']']) = .header name := by
  have inner : (('[' :: name ++ [']']).drop 1).dropLast = name := by
    rw [List.cons_append, List.drop_one, List.tail_cons, List.dropLast_concat]
  have closing : endswith ('[' :: name ++ [']']) [']'] = true :=
    List.isSuffixOf_iff_suffix.mpr (List.suffix_append _ _)
  have comment : isComment ('[' :: name ++ [']']) = false := by
    rw [isComment, strip_header]
    rfl
  have bracket : startswith ('[' :: name ++ [']']) ['['] = true := rfl
  have flush : (indentOf ('[' :: name ++ [']']) == 0) = true := rfl
  rw [plainLine, comment, strip_header, inner, closing, if_neg (by simp), if_pos bracket, flush]
  dsimp only
  rw [bne_iff_ne.mpr some, bne_iff_ne.mpr proper]
  rfl

theorem shareFields_plain {path validUsers readOnly guestOk : Str} :
    ((fieldTexts path validUsers readOnly guestOk).map (· ++ ['\n'])).all (agrees db) = true ∧
      ((fieldTexts path validUsers readOnly guestOk).map (· ++ ['\n'])).map (plainLine db) =
        (shareFields path validUsers readOnly guestOk).map fun f => .option f.1 (strip f.2) := by
  have unknown : ∀ f ∈ shareFields path validUsers readOnly guestOk,
      keysToUpdate.contains f.1 = false := by
    simp only [shareFields, List.forall_mem_cons]
    decide
  have written := shareFields_written path validUsers readOnly guestOk
  rw [fieldTexts_fields]
  constructor
  · rw [List.all_eq_true]
    intro line member
    rcases List.mem_map.mp member with ⟨text, inside, rfl⟩
    rcases List.mem_map.mp inside with ⟨f, known, rfl⟩
    rw [← agrees_chomp, chomp_concat]
    exact agrees_field (written f known) (unknown f known) f.2
  · rw [List.map_map, List.map_map]
    apply List.map_congr_left
    intro f member
    rw [Function.comp_apply, Function.comp_apply, plainLine_feed, plainLine_field (written f member)]

/-- A line feed at the end of the file is at most a blank line more. -/
theorem tidy_feed (tidy' : (readlines conf).all (agrees db) = true) :
    (readlines (conf ++ ['\n'])).all (agrees db) = true ∧
      (plainLines db (conf ++ ['\n']) = plainLines db conf ∨
        plainLines db (conf ++ ['\n']) = plainLines db conf ++ [.skip]) := by
  have all (content : Str) :
      (texts content).all (agrees db) = (readlines content).all (agrees db) := by
    rw [texts, List.all_map]
    congr 1
    funext line
    exact agrees_chomp line
  have lines (content : Str) : (texts content).map (plainLine db) = plainLines db content := by
    rw [texts, List.map_map, plainLines]
    apply List.map_congr_left
    intro line _
    exact plainLine_chomp line
  rw [← all, ← lines, ← lines]
  rw [← all] at tidy'
  rcases texts_feed conf with less | more
  · rw [less]
    exact ⟨tidy', .inl rfl⟩
  · have blank : agrees db [] = true := by
      rw [agrees]
      rfl
    rw [more, List.all_append, tidy', List.all_cons, blank, List.map_append]
    exact ⟨rfl, .inr rfl⟩

theorem opens_append {front back : List PlainLine} (first : opens front = true)
    (last : opens back = true) : opens (front ++ back) = true := by
  induction front with
  | nil => exact last
  | cons line front ih =>
      cases line with
      | skip => exact ih first
      | header name => rfl
      | option key value => cases first
      | other => cases first

def addToTable (name : Str) (fields : List (Str × Str)) (table : Table) : Table :=
  fields.foldl (fun table f => table.modify name (upsert Prod.fst (f.1, strip f.2)))
    (table.openSection name)

theorem foldl_options (name : Str) (fields : List (Str × Str)) (table : Table) :
    ((fields.map fun f => PlainLine.option f.1 (strip f.2)).foldl Table.step (table, some name)).1 =
      fields.foldl (fun table f => table.modify name (upsert Prod.fst (f.1, strip f.2))) table := by
  induction fields generalizing table with
  | nil => rfl
  | cons f fields ih => exact ih _

theorem tidy_add {name path validUsers readOnly guestOk : Str} (tidy' : tidy db conf = true)
    (some : name ≠ []) (proper : name ≠ defaultSection)
    (other : startswith name "global]".toList = false)
    (plainName : ∀ c ∈ name, isNewline c = false)
    (plain : ∀ text ∈ [path, validUsers, readOnly, guestOk], ∀ c ∈ text, isNewline c = false) :
    tidy db (addShareToConf name path validUsers readOnly guestOk conf) = true ∧
      tableOf db (addShareToConf name path validUsers readOnly guestOk conf) =
        addToTable name (shareFields path validUsers readOnly guestOk) (tableOf db conf) := by
  rw [tidy, Bool.and_eq_true] at tidy'
  rcases tidy_feed tidy'.1 with ⟨fed, lines⟩
  rcases @shareFields_plain db path validUsers readOnly guestOk with ⟨agree, fields⟩
  have kind : plainLine db ('[' :: name ++ [']'] ++ ['\n']) = .header name := by
    rw [plainLine_feed, plainLine_name some proper]
  have header : agrees db ('[' :: name ++ [']'] ++ ['\n']) = true := by
    rw [agrees, kind]
    dsimp only
    rw [other]
    rfl
  have whole : plainLines db (addShareToConf name path validUsers readOnly guestOk conf) =
      plainLines db (conf ++ ['\n']) ++ .header name ::
        (shareFields path validUsers readOnly guestOk).map fun f => .option f.1 (strip f.2) := by
    rw [plainLines, readlines_addShareToConf plainName plain, List.map_append, List.map_cons, kind,
      fields]
    rfl
  have opened : opens (plainLines db (conf ++ ['\n'])) = true := by
    rcases lines with less | more
    · rw [less, tidy'.2]
    · rw [more, opens_append tidy'.2 rfl]
  have table : ((plainLines db (conf ++ ['\n'])).foldl Table.step ([], none)).1 =
      tableOf db conf := by
    rcases lines with less | more
    · rw [less, tableOf]
    · rw [more, List.foldl_append, tableOf]
      rfl
  constructor
  · rw [tidy, whole, opens_append opened rfl, readlines_addShareToConf plainName plain,
      List.all_append, fed, List.all_cons, header, agree]
    rfl
  · rw [tableOf, whole, List.foldl_append, List.foldl_cons, Table.step, table, foldl_options]
    rfl

end Add

section Runs

inductive ConfChange where
  | share (request : ShareRequest)
  | update (form : GlobalForm)
  deriving DecidableEq, Repr

namespace ConfChange

def apply (db : CharData) (env : Env) (conf : Str) : ConfChange → Str
  | share request => request.apply db env conf
  | update form => (updateSambaGlobal env form conf).1

/-- The fields have one line, and a new share has neither the name of the default section nor
one that the scan of the update takes for `[global]`. -/
def flat : ConfChange → Bool
  | share (.add form) =>
      (ShareRequest.add form).oneLine && form.name.getD [] != defaultSection &&
        !startswith (form.name.getD []) "global]".toList
  | share (.delete _) => true
  | update form => form.newConf.all fun entry => entry.2.all (!isNewline ·)

def applyTable (db : CharData) (table : Table) : ConfChange → Table
  | share (.add form) =>
      if (ConfRequest.addShare form).accepts db then
        addToTable (form.name.getD []) form.fields table
      else table
  | share (.delete name) => if name.getD [] = [] then table else table.remove (name.getD [])
  | update form => table.renew globalSection (newValue form.newConf)

end ConfChange

def runChanges (db : CharData) (env : Env) (conf : Str) (changes : List ConfChange) : Str :=
  changes.foldl (ConfChange.apply db env) conf

theorem tidy_apply {db : CharData} (env : Env) {conf : Str} {change : ConfChange}
    (tidy' : tidy db conf = true) (flat : change.flat = true) :
    tidy db (change.apply db env conf) = true ∧
      tableOf db (change.apply db env conf) = change.applyTable db (tableOf db conf) := by
  cases change with
  | update form => exact tidy_update tidy' (newConf_givesAll flat)
  | share request =>
      cases request with
      | delete name =>
          rw [ConfChange.apply, ConfChange.applyTable, ShareRequest.apply, deleteShare]
          split
          next => exact ⟨tidy', rfl⟩
          next => exact tidy_delete tidy' _
      | add form =>
          rw [ConfChange.apply, ConfChange.applyTable, ShareRequest.apply]
          cases accepted : (ConfRequest.addShare form).accepts db with
          | false =>
              rw [addShare_refused accepted, if_neg Bool.false_ne_true]
              exact ⟨tidy', rfl⟩
          | true =>
              simp only [ConfChange.flat, ShareRequest.oneLine, List.all_append, Bool.and_eq_true,
                all_plain, bne_iff_ne, Bool.not_eq_true'] at flat
              obtain ⟨⟨⟨⟨plainName, plainPath⟩, plainUsers⟩, proper⟩, other⟩ := flat
              rw [addShare_accepted accepted, if_pos rfl]
              apply tidy_add tidy' (accepted_name accepted).1 proper other plainName
              simp only [List.forall_mem_cons]
              exact ⟨plainPath, plainUsers, yesNo_plain _, yesNo_plain _, by simp⟩

/-- Along every run of the three writers on a tidy file, the file holds the table that the
requests make, and both readers show what is in the table. -/
theorem conf_as_table (db : CharData) (env : Env) (conf : Str) (changes : List ConfChange)
    (tidy' : tidy db conf = true) (flat : ∀ change ∈ changes, change.flat = true) :
    let table := changes.foldl (ConfChange.applyTable db) (tableOf db conf)
    tableOf db (runChanges db env conf changes) = table ∧
      getShares db (runChanges db env conf changes) = tableShares db table ∧
      getSambaGlobal db (runChanges db env conf changes) = tableSettings db table := by
  have run : tidy db (runChanges db env conf changes) = true ∧
      tableOf db (runChanges db env conf changes) =
        changes.foldl (ConfChange.applyTable db) (tableOf db conf) := by
    induction changes generalizing conf with
    | nil => exact ⟨tidy', rfl⟩
    | cons change changes ih =>
        rcases tidy_apply env tidy' (flat change List.mem_cons_self) with ⟨kept, step⟩
        rcases ih (change.apply db env conf) kept
          (fun other member => flat other (List.mem_cons_of_mem change member)) with ⟨later, rest⟩
        rw [step] at rest
        exact ⟨later, rest⟩
  intro table
  have readers := readers_tidy run.1
  rw [run.2] at readers
  exact ⟨run.2, readers⟩

def deliveredConf : Str :=
  "# Samba\n[global]\n   workgroup = WORKGROUP\n;   map to guest = never\n\n[homes]\n   read only = yes".toList

theorem conf_as_table_delivered :
    let changes : List ConfChange :=
      [.share (.add (plainForm "/srv/nas/docs".toList)), .update (workgroupForm "HOME".toList),
        .share (.delete (some "homes".toList))]
    let conf := runChanges .ascii ⟨true, "dev".toList, "secret".toList⟩ deliveredConf changes
    getShares .ascii conf =
        [⟨"docs".toList, "/srv/nas/docs".toList, "dev".toList, "no".toList, "no".toList⟩] ∧
      getSambaGlobal .ascii conf = [("workgroup".toList, "HOME".toList)] := by
  intro changes conf
  have both := (conf_as_table .ascii ⟨true, "dev".toList, "secret".toList⟩ deliveredConf changes
    (by decide +kernel) (by decide +kernel)).2
  exact ⟨both.1.trans (by decide +kernel), both.2.trans (by decide +kernel)⟩

end Runs

end SmolNas.App
