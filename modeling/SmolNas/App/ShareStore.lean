import SmolNas.App.ShareListed
import SmolNas.Lib.Keyed

/-! The shares of `smb.conf` as a table by name: runs of requests that add and delete shares
change the list that `get_shares` reads like the table. -/

namespace SmolNas.App

open Py Py.ConfigParser Lib

section Flush

variable {db : CharData} {line : Str}

/-- A line that starts with a bracket is a header that is not indented and has a name. -/
def isFlush (line : Str) : Bool :=
  !startswith (strip line) ['['] ||
    (indentOf line == 0 && isSectionLine line && decide (2 < (strip line).length))

theorem sectionLine_text (opens : isSectionLine line = true) :
    strip line = '[' :: sectionText line ++ [']'] :=
  skips_header (by rw [skips, opens, if_pos rfl, beq_self_eq_true])

theorem isFlush_cases (flush : isFlush line = true) :
    startswith (strip line) ['['] = false ∨
      indentOf line = 0 ∧ isSectionLine line = true ∧ sectionText line ≠ [] := by
  rw [isFlush, Bool.or_eq_true, Bool.not_eq_true'] at flush
  rcases flush with other | header
  · exact .inl other
  · simp only [Bool.and_eq_true, beq_iff_eq, decide_eq_true_eq] at header
    refine .inr ⟨header.1.1, header.1.2, ?_⟩
    intro empty
    rw [sectionLine_text header.1.2, empty] at header
    exact absurd header.2 (by decide)

theorem isFlush_chomp (line : Str) : isFlush (chomp line) = isFlush line := by
  by_cases filled : strip line = []
  · rw [isFlush, isFlush, strip_chomp, filled]
    rfl
  · rw [isFlush, isFlush, isSectionLine, strip_chomp, indentOf_chomp filled, ← isSectionLine]

theorem sectionHeader_none (other : startswith (strip line) ['['] = false) :
    sectionHeader (strip line) = none := by
  unfold sectionHeader
  split
  next rest whole =>
    rw [whole] at other
    cases other
  next => rfl

theorem readLine_cursect {st st' : State} (other : sectionHeader (strip line) = none)
    (read : readLine db st line = some st') : st'.cursect = st.cursect := by
  unfold readLine at read
  cases kind : lineKind st line <;> rw [kind] at read <;> cases read
  case comment => rfl
  case blank => exact extend_cursect _ st
  case continuation => exact extend_cursect _ st
  case header name =>
    unfold lineKind at kind
    rw [other] at kind
    dsimp only at kind
    split at kind
    · cases kind
    · split at kind
      · cases kind
      · split at kind
        · cases kind
        · split at kind <;> cases kind
  case option => exact readOption_cursect _ _ st

theorem tracks_flush (n : Str) {lines : List Str} (flush : lines.all isFlush = true)
    {config : State} {skip : Bool} (agree : skip = (config.cursect == some n)) (before : State) :
    tracks db n config skip before lines = true := by
  induction lines generalizing config skip before with
  | nil => rfl
  | cons line lines ih =>
      rw [List.all_cons, Bool.and_eq_true] at flush
      unfold tracks
      cases read : readLine db config line with
      | none => rfl
      | some next =>
          dsimp only
          rcases isFlush_cases flush.1 with other | ⟨level, opens, named⟩
          · -- the line leaves both where they were
            have closed : isSectionLine line = false := by
              rw [isSectionLine, other]
              rfl
            have same := readLine_cursect (sectionHeader_none other) read
            have kept : skips n skip line = skip := by
              rw [skips, closed, if_neg Bool.false_ne_true]
            rw [kept, same, ← agree, ih flush.2 (by rw [same, agree])]
            simp
          · rw [readLine_header (sectionLine_text opens) level named config] at read
            cases read
            have moved : skips n skip line = (sectionText line == n) := by
              rw [skips, opens, if_pos rfl]
            have shallow : continues before line = false := by
              rw [continues, level, decide_eq_false (Nat.not_lt_zero _), Bool.and_false]
            have current : (config.openSection (sectionText line) 0).cursect =
                some (sectionText line) := rfl
            have here : (sectionText line == n) = (some (sectionText line) == some n) := rfl
            rw [moved, shallow, current, ← here, ih flush.2 (by rw [current, here]), Bool.and_false,
              beq_self_eq_true]
            rfl

end Flush

section Entries

variable {db : CharData}

def listed (db : CharData) (config : State) (name : Str) : Option ShareInfo :=
  if reservedNames.contains name then none else shareOf db config name

theorem keyed_listed (config : State) : Keyed ShareInfo.name (listed db config) := by
  intro name share found
  unfold listed at found
  split at found
  · cases found
  · exact shareOf_name found

theorem listShares_listed {config : State} {names : List Str}
    (listable : Listable db config names) :
    listShares db config names = names.filterMap (listed db config) := by
  induction names with
  | nil => rfl
  | cons name names ih =>
      have rest := ih fun n member => listable n (List.mem_cons_of_mem name member)
      rw [listShares, List.filterMap_cons]
      by_cases hidden : reservedNames.contains name = true
      · rw [listed, if_pos hidden, if_pos hidden]
        exact rest
      · rcases Option.isSome_iff_exists.mp
          ((listable name List.mem_cons_self).resolve_left hidden) with ⟨share, found⟩
        rw [listed, if_neg hidden, if_neg hidden, found]
        dsimp only
        rw [rest]

theorem listed_isSome {config : State} {name : Str} (free : reservedNames.contains name = false)
    {names : List Str} (listable : Listable db config names) (member : name ∈ names) :
    (listed db config name).isSome = true := by
  rw [listed, free, if_neg Bool.false_ne_true]
  exact (listable name member).resolve_left (by rw [free]; exact Bool.false_ne_true)

/-- A file whose headers are not indented, that the parser reads, and whose shares all
have their entries. -/
def orderly (db : CharData) (conf : Str) : Bool :=
  (readlines conf).all isFlush &&
    (ConfigParser.read db conf).any fun config =>
      decide (Listable db config (config.sections.map Prod.fst))

theorem orderly_iff {conf : Str} : orderly db conf = true ↔
    (readlines conf).all isFlush = true ∧ ∃ config, ConfigParser.read db conf = some config ∧
      Listable db config (config.sections.map Prod.fst) := by
  rw [orderly, Bool.and_eq_true, Option.any_eq_true]
  simp only [decide_eq_true_eq]

theorem getShares_listed {conf : Str} {config : State}
    (read : ConfigParser.read db conf = some config)
    (listable : Listable db config (config.sections.map Prod.fst)) :
    getShares db conf = (config.sections.map Prod.fst).filterMap (listed db config) := by
  rw [getShares, read]
  exact listShares_listed listable

end Entries

section Delete

variable {db : CharData} {conf : Str}

theorem deleteShare_orderly {n : Str} (proper : n ≠ defaultSection)
    (orderly' : orderly db conf = true) :
    orderly db (deleteShareFromConf n conf) = true ∧
      getShares db (deleteShareFromConf n conf) = (getShares db conf).filter (·.name != n) := by
  rcases orderly_iff.mp orderly' with ⟨flush, config, parsed, listable⟩
  rcases Option.filter_eq_some_iff.mp parsed with ⟨lines, clean⟩
  have start : Follows n false State.empty State.empty :=
    ⟨rfl, rfl, id, fun _ => ⟨rfl, rfl, rfl⟩⟩
  rcases follows_deleteScan proper (readlines conf) start ⟨rfl, rfl, rfl⟩ (by simp)
    (tracks_flush n flush rfl .empty) lines with ⟨config', last, read', follows⟩
  have clean' : config'.failed = false := by
    rw [← Bool.not_eq_true]
    intro failed
    rw [follows.failed failed] at clean
    cases clean
  have after : ConfigParser.read db (deleteShareFromConf n conf) = some config' := by
    rw [ConfigParser.read, readlines_deleteShare, read', Option.filter_some, clean']
    rfl
  have names : config'.sections.map Prod.fst =
      (config.sections.map Prod.fst).filter (· != n) := by
    rw [follows.sections, List.filter_map]
    rfl
  have others {name : Str} (member : name ∈ config'.sections.map Prod.fst) :
      shareOf db config' name = shareOf db config name := by
    rw [names] at member
    exact shareOf_follows follows (bne_iff_ne.mp (List.mem_filter.mp member).2)
  have listable' : Listable db config' (config'.sections.map Prod.fst) := by
    intro name member
    rw [others member]
    rw [names] at member
    exact listable name (List.mem_filter.mp member).1
  have flush' : (readlines (deleteShareFromConf n conf)).all isFlush = true := by
    rw [readlines_deleteShare, List.all_eq_true]
    intro line member
    exact List.all_eq_true.mp flush line ((deleteScan_sublist n false _).subset member)
  refine ⟨orderly_iff.mpr ⟨flush', config', after, listable'⟩, ?_⟩
  calc
    getShares db (deleteShareFromConf n conf) =
        (config'.sections.map Prod.fst).filterMap (listed db config') :=
      getShares_listed after listable'
    _ = ((config.sections.map Prod.fst).filter (· != n)).filterMap (listed db config) := by
      rw [← names]
      apply List.filterMap_congr
      intro name member
      rw [listed, listed, others member]
    _ = ((config.sections.map Prod.fst).filterMap (listed db config)).filter (·.name != n) :=
      filterMap_remove (keyed_listed config) n _
    _ = (getShares db conf).filter (·.name != n) := by rw [getShares_listed parsed listable]

end Delete

section Add

variable {db : CharData} {conf : Str} {form : ShareForm}

theorem openSection_names (name : Str) (st : State) (proper : name ≠ defaultSection) :
    (st.openSection name 0).sections.map Prod.fst =
      if (st.sections.map Prod.fst).contains name then st.sections.map Prod.fst
      else st.sections.map Prod.fst ++ [name] := by
  have known : st.sections.any (·.1 == name) = (st.sections.map Prod.fst).contains name := by
    rw [Bool.eq_iff_iff, List.any_eq_true, List.contains_iff_mem, List.mem_map]
    simp only [beq_iff_eq]
  rw [State.openSection, beq_eq_false_iff_ne.mpr proper, Bool.or_false, known]
  dsimp only
  split
  · rfl
  · rw [List.map_append]
    rfl

theorem openSection_lookup (name other : Str) (st : State) :
    ((st.openSection name 0).sections.lookup other).getD [] =
      (st.sections.lookup other).getD [] := by
  unfold State.openSection
  dsimp only
  split
  · rfl
  · rw [List.lookup_append]
    cases st.sections.lookup other with
    | some options => rfl
    | none =>
        rw [Option.none_or, List.lookup_cons]
        split <;> rfl

theorem lookup_opened (name : Str) (st : State) (proper : name ≠ defaultSection) :
    ((st.openSection name 0).sections.lookup name).isSome = true := by
  have member : name ∈ (st.openSection name 0).sections.map Prod.fst := by
    rw [openSection_names name st proper]
    split
    next present => exact List.contains_iff_mem.mp present
    next => exact List.mem_append_right _ (List.mem_singleton.mpr rfl)
  rcases List.mem_map.mp member with ⟨s, inside, same⟩
  rw [List.lookup_isSome_iff]
  exact ⟨s, inside, beq_iff_eq.mpr same.symm⟩

theorem rawValue_written {base after : State} {name : Str} {fields : List (Str × Str)}
    (proper : name ≠ defaultSection)
    (sections : after.sections = ((base.openSection name 0).modify (setFields fields)).sections)
    (defaults : after.defaults = ((base.openSection name 0).modify (setFields fields)).defaults) :
    (∀ other, other ≠ name → rawValue after other = rawValue base other) ∧
      ∀ key value, fields.reverse.lookup key = some value →
        rawValue after name key = some (strip value) := by
  have current : (base.openSection name 0).cursect = some name := rfl
  have kept : after.defaults = base.defaults := by
    rw [defaults, modify_defaults, current, if_neg (by simp [proper])]
    rfl
  constructor
  · intro other away
    have place : ¬((base.openSection name 0).cursect = some other ∧ other ≠ defaultSection) := by
      rintro ⟨same, -⟩
      rw [current] at same
      exact away (Option.some.inj same).symm
    funext key
    rw [rawValue, rawValue, sections, kept, modify_lookup, if_neg place, openSection_lookup]
  · intro key value found
    rcases Option.isSome_iff_exists.mp (lookup_opened name base proper) with ⟨options, opened⟩
    rw [rawValue, sections, modify_lookup, if_pos ⟨current, proper⟩, opened, Option.map_some,
      Option.getD_some, lookup_setFields, found, Option.map_some, Option.some_or, Option.some_or,
      Option.map_some, joined_strip]

theorem shareOf_written {config : State}
    (own : ∀ key value, form.fields.reverse.lookup key = some value →
      rawValue config (form.name.getD []) key = some (strip value))
    (plainPath : '%' ∉ form.path.getD []) (plainUsers : '%' ∉ form.validUsers.getD []) :
    shareOf db config (form.name.getD []) = some form.entry := by
  have value {key text : Str} (written : isWrittenKey key = true)
      (found : form.fields.reverse.lookup key = some text) (plain : '%' ∉ text) (fallback : Str) :
      config.get db (form.name.getD []) key fallback = some (strip text) := by
    rw [get_of_rawValue rfl written (own key text found)]
    apply interpolate_plain
    rwa [mem_strip (by decide)]
  have path := @value "path".toList _ (by decide) rfl plainPath "?".toList
  have users := @value "valid users".toList _ (by decide) rfl plainUsers "Everyone".toList
  have readOnly := @value "read only".toList _ (by decide) rfl
    (yesNo_value form.readOnly).2 "yes".toList
  have guestOk := @value "guest ok".toList _ (by decide) rfl
    (yesNo_value form.guestOk).2 "no".toList
  rw [(yesNo_value _).1] at readOnly guestOk
  rw [shareOf, path, users, readOnly, guestOk]
  rfl

theorem flush_addShareToConf {name path validUsers readOnly guestOk : Str} (some : name ≠ [])
    (plainName : ∀ c ∈ name, isNewline c = false)
    (plain : ∀ text ∈ [path, validUsers, readOnly, guestOk], ∀ c ∈ text, isNewline c = false)
    (flush : (readlines conf).all isFlush = true) :
    (readlines (addShareToConf name path validUsers readOnly guestOk conf)).all isFlush = true := by
  have old : (texts conf).all isFlush = true := by
    rw [texts, List.all_map, ← flush]
    congr 1
    funext line
    exact isFlush_chomp line
  have fed : (readlines (conf ++ ['\n'])).all isFlush = true := by
    have texts' : (texts (conf ++ ['\n'])).all isFlush = true := by
      rcases texts_feed conf with less | more
      · rw [less, old]
      · rw [more, List.all_append, old]
        rfl
    rw [← texts', texts, List.all_map]
    congr 1
    funext line
    exact (isFlush_chomp line).symm
  have own : strip ('[' :: name ++ [']'] ++ ['\n']) = '[' :: name ++ [']'] :=
    (strip_concat (by decide) _).trans (strip_header name)
  have header : isFlush ('[' :: name ++ [']'] ++ ['\n']) = true := by
    have opens : isSectionLine ('[' :: name ++ [']'] ++ ['\n']) = true := by
      rw [isSectionLine, own, Bool.and_eq_true]
      exact ⟨rfl, List.isSuffixOf_iff_suffix.mpr (List.suffix_append _ _)⟩
    have long : 2 < ('[' :: name ++ [']']).length := by
      have filled := List.length_pos_iff.mpr some
      rw [List.length_append, List.length_cons, List.length_singleton]
      omega
    rw [isFlush, own, opens, decide_eq_true long]
    rfl
  have fields : ((fieldTexts path validUsers readOnly guestOk).map (· ++ ['\n'])).all isFlush =
      true := by
    rw [List.all_map, fieldTexts_fields, List.all_map, List.all_eq_true]
    intro f member
    have written := shareFields_written path validUsers readOnly guestOk f member
    rcases strip_field written f.2 with ⟨t, text, -⟩
    rcases writtenKey_cons written with ⟨c, rest, whole, -, -, letter⟩
    rw [Function.comp_apply, Function.comp_apply, isFlush, strip_concat (by decide), text, whole,
      Bool.or_eq_true]
    left
    have other : ('[' == c) = false := beq_eq_false_iff_ne.mpr letter.symm
    rw [Bool.not_eq_true', startswith, List.cons_append, List.isPrefixOf, other, Bool.false_and]
  rw [readlines_addShareToConf plainName plain, List.all_append, List.all_cons, fed, header, fields]
  rfl

theorem addShare_orderly (env : Env) (orderly' : orderly db conf = true)
    (accepted : (ConfRequest.addShare form).accepts db = true)
    (proper : form.name.getD [] ≠ defaultSection)
    (plain : ∀ text ∈ [form.name.getD [], form.path.getD [], form.validUsers.getD []],
      ∀ c ∈ text, isNewline c = false)
    (plainPath : '%' ∉ form.path.getD []) (plainUsers : '%' ∉ form.validUsers.getD []) :
    orderly db (addShare db env form conf).1 = true ∧
      getShares db (addShare db env form conf).1 =
        upsert ShareInfo.name form.entry (getShares db conf) := by
  rcases orderly_iff.mp orderly' with ⟨flush, config, parsed, listable⟩
  rcases accepted_name accepted with ⟨filled, free⟩
  have body : ∀ text ∈ [form.path.getD [], form.validUsers.getD [], yesNo form.readOnly,
      yesNo form.guestOk], ∀ c ∈ text, isNewline c = false := by
    simp only [List.forall_mem_cons] at plain ⊢
    exact ⟨plain.2.1, plain.2.2.1, yesNo_plain _, yesNo_plain _, by simp⟩
  have plainName := plain _ List.mem_cons_self
  rcases read_addShareToConf parsed filled plainName body with
    ⟨base, after, reread, values, names, sections, defaults⟩
  rcases rawValue_written proper sections defaults with ⟨others, own⟩
  have entry : shareOf db after (form.name.getD []) = some form.entry :=
    shareOf_written own plainPath plainUsers
  have same {name : Str} (away : name ≠ form.name.getD []) :
      shareOf db after name = shareOf db config name := by
    simp only [shareOf, State.get, others name away, values]
  have names' : after.sections.map Prod.fst =
      if (config.sections.map Prod.fst).contains (form.name.getD []) then
        config.sections.map Prod.fst
      else config.sections.map Prod.fst ++ [form.name.getD []] := by
    rw [sections, modify_names, openSection_names _ _ proper, names]
  have listable' : Listable db after (after.sections.map Prod.fst) := by
    intro name member
    by_cases away : name = form.name.getD []
    · right
      rw [away, entry]
      rfl
    · rw [same away]
      apply listable name
      rw [names'] at member
      split at member
      · exact member
      · rcases List.mem_append.mp member with old | new
        · exact old
        · exact absurd (List.mem_singleton.mp new) away
  have flush' := flush_addShareToConf filled plainName body flush
  rw [addShare_accepted accepted]
  refine ⟨orderly_iff.mpr ⟨flush', after, reread, listable'⟩, ?_⟩
  rw [getShares_listed reread listable', getShares_listed parsed listable, names']
  apply filterMap_upsert (keyed_listed config)
  · rw [listed, free, if_neg Bool.false_ne_true, entry]
  · rfl
  · intro name away
    rw [listed, listed, same away]
  · exact listed_isSome free listable

end Add

section Runs

namespace ShareRequest

/-- Fields of one line without percent signs, and no name of the default section. -/
def plain : ShareRequest → Bool
  | add form =>
      (add form).oneLine && form.name.getD [] != defaultSection &&
        (form.path.getD [] ++ form.validUsers.getD []).all (· != '%')
  | delete name => name.getD [] != defaultSection

def applyTable (db : CharData) (shares : List ShareInfo) : ShareRequest → List ShareInfo
  | add form =>
      if (ConfRequest.addShare form).accepts db then upsert ShareInfo.name form.entry shares
      else shares
  | delete name =>
      if name.getD [] = [] then shares else shares.filter (·.name != name.getD [])

end ShareRequest

theorem getShares_apply (db : CharData) (env : Env) {conf : Str} (request : ShareRequest)
    (orderly' : orderly db conf = true) (plain : request.plain = true) :
    orderly db (request.apply db env conf) = true ∧
      getShares db (request.apply db env conf) = request.applyTable db (getShares db conf) := by
  cases request with
  | add form =>
      rw [ShareRequest.apply, ShareRequest.applyTable]
      cases accepted : (ConfRequest.addShare form).accepts db with
      | false =>
          rw [addShare_refused accepted, if_neg Bool.false_ne_true]
          exact ⟨orderly', rfl⟩
      | true =>
          simp only [ShareRequest.plain, ShareRequest.oneLine, List.all_append, Bool.and_eq_true,
            all_plain, bne_iff_ne] at plain
          obtain ⟨⟨⟨⟨plainName, plainPath⟩, plainUsers⟩, proper⟩, path, users⟩ := plain
          rw [if_pos rfl]
          apply addShare_orderly env orderly' accepted proper
          · simp only [List.forall_mem_cons]
            exact ⟨plainName, plainPath, plainUsers, by simp⟩
          · exact fun sign => bne_iff_ne.mp (List.all_eq_true.mp path _ sign) rfl
          · exact fun sign => bne_iff_ne.mp (List.all_eq_true.mp users _ sign) rfl
  | delete name =>
      unfold ShareRequest.apply ShareRequest.applyTable deleteShare
      dsimp only
      split
      next => exact ⟨orderly', rfl⟩
      next => exact deleteShare_orderly (bne_iff_ne.mp plain) orderly'

/-- Along every run of plain requests on an orderly file, the shares that are read from the
file are those of the table; an accepted share replaces the one of its name. -/
theorem shares_as_table (db : CharData) (env : Env) (conf : Str) (requests : List ShareRequest)
    (orderly' : orderly db conf = true) (plain : ∀ request ∈ requests, request.plain = true) :
    getShares db (runShares db env conf requests) =
      requests.foldl (ShareRequest.applyTable db) (getShares db conf) := by
  induction requests generalizing conf with
  | nil => rfl
  | cons request requests ih =>
      rcases getShares_apply db env request orderly' (plain request List.mem_cons_self) with
        ⟨kept, step⟩
      calc
        getShares db (runShares db env conf (request :: requests)) =
            getShares db (runShares db env (request.apply db env conf) requests) := rfl
        _ = requests.foldl (ShareRequest.applyTable db)
            (getShares db (request.apply db env conf)) :=
          ih _ kept fun other member => plain other (List.mem_cons_of_mem request member)
        _ = (request :: requests).foldl (ShareRequest.applyTable db) (getShares db conf) := by
          rw [step, List.foldl_cons]

/-- A share that is replaced where it stood, and one that is deleted. -/
theorem shares_as_table_replaced :
    let requests : List ShareRequest :=
      [.add ⟨some "a".toList, some " /new".toList, some "eve".toList, some "1".toList, none⟩,
        .delete (some "b".toList)]
    getShares .ascii (runShares .ascii ⟨true, "dev".toList, "secret".toList⟩ twoShares requests) =
        requests.foldl (ShareRequest.applyTable .ascii) (getShares .ascii twoShares) ∧
      getShares .ascii (runShares .ascii ⟨true, "dev".toList, "secret".toList⟩ twoShares requests) =
        [⟨"a".toList, "/new".toList, "eve".toList, "yes".toList, "no".toList⟩] :=
  ⟨shares_as_table .ascii _ twoShares _ (by decide +kernel) (by decide +kernel),
    by decide +kernel⟩

end Runs

end SmolNas.App
