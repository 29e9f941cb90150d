import SmolNas.App.ShareAdded
import SmolNas.App.ShareList
import SmolNas.Py.ConfigWritten
import SmolNas.Py.Interpolation

/-! A share that was just added, in the list that `get_shares` reads from the file. -/

namespace SmolNas.App

open Py Py.ConfigParser

section Listing

variable {db : CharData}

/-- Every section that is listed has its entry. -/
def Listable (db : CharData) (config : State) (names : List Str) : Prop :=
  ∀ name ∈ names, reservedNames.contains name = true ∨ (shareOf db config name).isSome = true

instance (db : CharData) (config : State) (names : List Str) :
    Decidable (Listable db config names) :=
  inferInstanceAs (Decidable (∀ name ∈ names,
    reservedNames.contains name = true ∨ (shareOf db config name).isSome = true))

theorem listShares_append {config : State} {front : List Str}
    (listable : Listable db config front) (back : List Str) :
    listShares db config (front ++ back) =
      listShares db config front ++ listShares db config back := by
  induction front with
  | nil => rfl
  | cons name front ih =>
      have rest := ih fun n member => listable n (List.mem_cons_of_mem name member)
      rw [List.cons_append, listShares, listShares]
      split
      next => exact rest
      next shown =>
        rcases listable name List.mem_cons_self with hidden | entry
        · exact absurd hidden shown
        · rcases Option.isSome_iff_exists.mp entry with ⟨share, found⟩
          rw [found]
          dsimp only
          rw [rest, List.cons_append]

theorem listShares_congr {config other : State} {names : List Str}
    (same : ∀ name ∈ names, shareOf db config name = shareOf db other name) :
    listShares db config names = listShares db other names := by
  induction names with
  | nil => rfl
  | cons name names ih =>
      rw [listShares, listShares, same name List.mem_cons_self,
        ih fun n member => same n (List.mem_cons_of_mem name member)]

theorem listShares_longest {config : State} {names : List Str}
    (listable : Listable db config names) (other : State) :
    (listShares db other names).length ≤ (listShares db config names).length := by
  induction names with
  | nil => exact Nat.le_refl 0
  | cons name names ih =>
      have rest := ih fun n member => listable n (List.mem_cons_of_mem name member)
      rw [listShares, listShares]
      split
      next => exact rest
      next shown =>
        rcases listable name List.mem_cons_self with hidden | entry
        · exact absurd hidden shown
        · rcases Option.isSome_iff_exists.mp entry with ⟨share, found⟩
          rw [found]
          dsimp only
          split
          · exact Nat.zero_le _
          · exact Nat.succ_le_succ rest

end Listing

section Reading

variable {db : CharData} {name path validUsers readOnly guestOk conf : Str} {st : State}

def shareFields (path validUsers readOnly guestOk : Str) : List (Str × Str) :=
  [("path".toList, path), ("valid users".toList, validUsers), ("read only".toList, readOnly),
    ("guest ok".toList, guestOk), ("create mask".toList, "0664".toList),
    ("directory mask".toList, "0775".toList)]

theorem fieldTexts_fields : fieldTexts path validUsers readOnly guestOk =
    (shareFields path validUsers readOnly guestOk).map fun f => field f.1 f.2 := rfl

theorem shareFields_written (path validUsers readOnly guestOk : Str) :
    ∀ f ∈ shareFields path validUsers readOnly guestOk, isWrittenKey f.1 = true := by
  simp only [shareFields, List.forall_mem_cons]
  decide +kernel

theorem extend_kept (line : Str) (st : State) :
    (st.extend line).sections.map Prod.fst = st.sections.map Prod.fst ∧
      (st.extend line).failed = st.failed := by
  unfold State.extend
  split
  · exact ⟨rfl, rfl⟩
  · exact ⟨modify_names _ st, (modify_rest _ st).2.2⟩

theorem readLines_feed (read : readLines db .empty (readlines conf) = some st) :
    ∃ base, readLines db .empty (readlines (conf ++ ['\n'])) = some base ∧
      rawValue base = rawValue st ∧ base.sections.map Prod.fst = st.sections.map Prod.fst ∧
      base.failed = st.failed := by
  have old : readLines db .empty (texts conf) = some st := (readLines_chomp _ _).trans read
  have new : readLines db .empty (texts (conf ++ ['\n'])) =
      readLines db .empty (readlines (conf ++ ['\n'])) := readLines_chomp _ _
  rcases texts_feed conf with less | more
  · exact ⟨st, by rw [← new, less, old], rfl, rfl, rfl⟩
  · refine ⟨st.extend [], ?_, rawValue_extend_blank st, extend_kept [] st⟩
    rw [← new, more, readLines_append, old, Option.bind_some, readLines, readLine,
      lineKind_blank rfl]
    rfl

theorem openSection_modify {fields : Options → Options} (fresh : name ∉ st.sections.map Prod.fst)
    (proper : name ≠ defaultSection) :
    ((st.openSection name 0).modify fields).sections = st.sections ++ [(name, fields [])] ∧
      ((st.openSection name 0).modify fields).defaults = st.defaults := by
  have absent : st.sections.any (·.1 == name) = false := by
    rw [List.any_eq_false]
    intro s member same
    exact fresh (List.mem_map.mpr ⟨s, member, beq_iff_eq.mp same⟩)
  have opened : (st.openSection name 0).sections = st.sections ++ [(name, [])] := by
    rw [State.openSection, absent, beq_eq_false_iff_ne.mpr proper, Bool.false_or,
      if_neg Bool.false_ne_true]
  have others : (st.sections.map fun s => if s.1 = name then (s.1, fields s.2) else s) =
      st.sections := by
    refine (List.map_congr_left ?_).trans (List.map_id _)
    intro s member
    have away : s.1 ≠ name := fun same => fresh (List.mem_map.mpr ⟨s, member, same⟩)
    rw [if_neg away]
    rfl
  unfold State.modify
  rw [show (st.openSection name 0).cursect = some name from rfl]
  dsimp only
  rw [if_neg proper]
  refine ⟨?_, rfl⟩
  dsimp only
  rw [opened, List.map_append, others, List.map_cons, if_pos rfl, List.map_nil]

theorem read_addShareToConf (read : ConfigParser.read db conf = some st) (some : name ≠ [])
    (plainName : ∀ c ∈ name, isNewline c = false)
    (plain : ∀ text ∈ [path, validUsers, readOnly, guestOk], ∀ c ∈ text, isNewline c = false) :
    ∃ base after,
      ConfigParser.read db (addShareToConf name path validUsers readOnly guestOk conf) =
          .some after ∧
        rawValue base = rawValue st ∧ base.sections.map Prod.fst = st.sections.map Prod.fst ∧
        after.sections = ((base.openSection name 0).modify
          (setFields (shareFields path validUsers readOnly guestOk))).sections ∧
        after.defaults = ((base.openSection name 0).modify
          (setFields (shareFields path validUsers readOnly guestOk))).defaults := by
  rcases Option.filter_eq_some_iff.mp read with ⟨lines, clean⟩
  rcases readLines_feed lines with ⟨base, fed, values, names, failed⟩
  have header (at' : State) :
      readLine db at' ('[' :: name ++ [']'] ++ ['\n']) = .some (at'.openSection name 0) :=
    readLine_header ((strip_concat (by decide) _).trans (strip_header name)) rfl some at'
  have texts : ((fieldTexts path validUsers readOnly guestOk).map (· ++ ['\n'])).map chomp =
      (shareFields path validUsers readOnly guestOk).map fun f => field f.1 f.2 := by
    rw [List.map_map, fieldTexts_fields]
    refine (List.map_congr_left ?_).trans (List.map_id _)
    intro text _
    exact chomp_concat text
  have inside : (base.openSection name 0).cursect ≠ none := Option.some_ne_none name
  rcases @readLines_fields db _ (shareFields_written path validUsers readOnly guestOk) _ inside
    (.inl rfl) with ⟨after, own, sections, defaults, kept⟩
  refine ⟨base, after, ?_, values, names, sections, defaults⟩
  have whole : readLines db .empty
      (readlines (addShareToConf name path validUsers readOnly guestOk conf)) = .some after := by
    rw [readlines_addShareToConf plainName plain, readLines_append, fed, Option.bind_some,
      readLines, header, Option.bind_some, ← readLines_chomp, texts, own]
  have unfailed : after.failed = false := by
    rw [kept]
    exact failed.trans (by simpa using clean)
  rw [ConfigParser.read, whole, Option.filter_some, unfailed]
  rfl

end Reading

section Entries

namespace ShareForm

def fields (form : ShareForm) : List (Str × Str) :=
  shareFields (form.path.getD []) (form.validUsers.getD []) (yesNo form.readOnly)
    (yesNo form.guestOk)

def entry (form : ShareForm) : ShareInfo :=
  ⟨form.name.getD [], strip (form.path.getD []), strip (form.validUsers.getD []),
    yesNo form.readOnly, yesNo form.guestOk⟩

end ShareForm

variable {db : CharData} {name conf : Str} {st : State} {fields : List (Str × Str)}

def addedValue (fields : List (Str × Str)) (defaults : Options) (key : Str) : Option Str :=
  ((fields.reverse.lookup key).map strip).or ((defaults.lookup key).map joined)

theorem lookup_absent {sections : List (Str × Options)} (absent : name ∉ sections.map Prod.fst) :
    sections.lookup name = none := by
  rw [List.lookup_eq_none_iff]
  intro s member
  rw [bne_iff_ne]
  intro same
  exact absent (List.mem_map.mpr ⟨s, member, same.symm⟩)

theorem rawValue_fresh (fresh : name ∉ st.sections.map Prod.fst) (key : Str) :
    rawValue st name key = (st.defaults.lookup key).map joined := by
  rw [rawValue, lookup_absent fresh]
  rfl

theorem rawValue_added {base after : State} (values : rawValue base = rawValue st)
    (freshBase : name ∉ base.sections.map Prod.fst) (fresh : name ∉ st.sections.map Prod.fst)
    (sections : after.sections = base.sections ++ [(name, setFields fields [])])
    (defaults : after.defaults = base.defaults) :
    rawValue after name = addedValue fields st.defaults := by
  have own : after.sections.lookup name = some (setFields fields []) := by
    rw [sections, List.lookup_append, lookup_absent freshBase, Option.none_or, List.lookup_cons_self]
  funext key
  have rest := congrFun (congrFun values name) key
  rw [rawValue_fresh freshBase, rawValue_fresh fresh] at rest
  rw [rawValue, own, defaults, Option.getD_some, lookup_setFields, List.lookup_nil, Option.or_none,
    Option.map_or, rest, addedValue, Option.map_map]
  congr 2
  funext value
  exact joined_strip value

/-- Interpolation gives the text back. -/
def Unchanged (db : CharData) (map : Str → Option Str) (text : Str) : Prop :=
  interpolate db map maxInterpolationDepth text = some text

instance (db : CharData) (map : Str → Option Str) (text : Str) : Decidable (Unchanged db map text) :=
  inferInstanceAs (Decidable (interpolate db map maxInterpolationDepth text = some text))

theorem get_of_rawValue {config : State} {map : Str → Option Str} (own : rawValue config name = map)
    {key value : Str} (written : isWrittenKey key = true) (found : map key = some value)
    (fallback : Str) :
    config.get db name key fallback = interpolate db map maxInterpolationDepth value := by
  rw [State.get, lower_writtenKey written, own, found]

theorem yesNo_value (value : Option Str) : strip (yesNo value) = yesNo value ∧ '%' ∉ yesNo value := by
  unfold yesNo
  split <;> decide

theorem shareOf_added {form : ShareForm} {config : State} {defaults : Options}
    (own : rawValue config (form.name.getD []) = addedValue form.fields defaults) :
    shareOf db config (form.name.getD []) = some form.entry ↔
      Unchanged db (addedValue form.fields defaults) (strip (form.path.getD [])) ∧
        Unchanged db (addedValue form.fields defaults) (strip (form.validUsers.getD [])) := by
  have path : config.get db (form.name.getD []) "path".toList "?".toList =
      interpolate db (addedValue form.fields defaults) maxInterpolationDepth
        (strip (form.path.getD [])) := get_of_rawValue own (by decide) rfl _
  have users : config.get db (form.name.getD []) "valid users".toList "Everyone".toList =
      interpolate db (addedValue form.fields defaults) maxInterpolationDepth
        (strip (form.validUsers.getD [])) := get_of_rawValue own (by decide) rfl _
  have readOnly : config.get db (form.name.getD []) "read only".toList "yes".toList =
      some (yesNo form.readOnly) := by
    have value := yesNo_value form.readOnly
    rw [get_of_rawValue own (by decide) rfl _, value.1]
    exact interpolate_plain value.2
  have guestOk : config.get db (form.name.getD []) "guest ok".toList "no".toList =
      some (yesNo form.guestOk) := by
    have value := yesNo_value form.guestOk
    rw [get_of_rawValue own (by decide) rfl _, value.1]
    exact interpolate_plain value.2
  rw [shareOf, path, users, readOnly, guestOk]
  simp only [Option.bind_eq_bind, Option.bind_eq_some_iff, Option.pure_def, Option.some.injEq,
    Unchanged, ShareForm.entry, ShareInfo.mk.injEq]
  constructor
  · rintro ⟨_, first, _, second, _, _, _, _, _, rfl, rfl, _⟩
    exact ⟨first, second⟩
  · intro both
    exact ⟨_, both.1, _, both.2, _, rfl, _, rfl, by simp only [and_self]⟩

theorem addedValue_source {defaults : Options} {key value : Str}
    (found : addedValue fields defaults key = some value) :
    (∃ field ∈ fields, value = strip field.2) ∨ ∃ option ∈ defaults, value = joined option.2 := by
  rcases Option.or_eq_some_iff.mp found with own | ⟨-, rest⟩
  · rcases Option.map_eq_some_iff.mp own with ⟨text, inside, whole⟩
    exact .inl ⟨_, List.mem_reverse.mp (mem_of_lookup inside), whole.symm⟩
  · rcases Option.map_eq_some_iff.mp rest with ⟨lines, inside, whole⟩
    exact .inr ⟨_, mem_of_lookup inside, whole.symm⟩

theorem unchanged_fields {form : ShareForm} {defaults : Options}
    (clean : ∀ option ∈ defaults, '%' ∉ joined option.2) :
    Unchanged db (addedValue form.fields defaults) (strip (form.path.getD [])) ∧
        Unchanged db (addedValue form.fields defaults) (strip (form.validUsers.getD [])) ↔
      '%' ∉ form.path.getD [] ∧ '%' ∉ form.validUsers.getD [] := by
  rw [← mem_strip (by decide) (form.path.getD []), ← mem_strip (by decide) (form.validUsers.getD [])]
  constructor
  · intro both
    have fixed : ∀ key v, addedValue form.fields defaults key = some v → '%' ∈ v →
        interpolate db (addedValue form.fields defaults) maxInterpolationDepth v = some v := by
      intro key v found sign
      rcases addedValue_source found with ⟨field, member, rfl⟩ | ⟨option, member, rfl⟩
      · simp only [ShareForm.fields, shareFields, List.mem_cons, List.not_mem_nil, or_false] at member
        rcases member with rfl | rfl | rfl | rfl | rfl | rfl
        · exact both.1
        · exact both.2
        · rw [(yesNo_value _).1] at sign
          exact absurd sign (yesNo_value _).2
        · rw [(yesNo_value _).1] at sign
          exact absurd sign (yesNo_value _).2
        · exact absurd sign (by decide)
        · exact absurd sign (by decide)
      · exact absurd sign (clean option member)
    have free := interpolate_fixed fixed
    exact ⟨free "path".toList _ rfl, free "valid users".toList _ rfl⟩
  · intro free
    exact ⟨interpolate_plain free.1, interpolate_plain free.2⟩

end Entries

section Added

variable {db : CharData} {conf : Str} {form : ShareForm} {st : State}

/-- The list is the old one followed by the new share, with the submitted values. -/
def ListsAdded (db : CharData) (env : Env) (conf : Str) (form : ShareForm) : Prop :=
  getShares db (addShare db env form conf).1 = getShares db conf ++ [form.entry]

theorem accepted_name (accepted : (ConfRequest.addShare form).accepts db = true) :
    form.name.getD [] ≠ [] ∧ reservedNames.contains (form.name.getD []) = false := by
  simp only [ConfRequest.accepts, Bool.and_eq_true, bne_iff_ne, Bool.not_eq_true'] at accepted
  refine ⟨accepted.1.1.1, ?_⟩
  have table : ∀ name ∈ reservedNames, name.all (fun c => decide (c.toNat < 128) &&
      !(decide (65 ≤ c.toNat) && decide (c.toNat ≤ 90))) = true := by decide
  rw [← Bool.not_eq_true, List.contains_iff_mem]
  intro member
  have same : db.lower (form.name.getD []) = form.name.getD [] := db.lower_small (table _ member)
  rw [same, List.contains_iff_mem.mpr member] at accepted
  cases accepted.2

theorem listsAdded_iff (env : Env) (read : ConfigParser.read db conf = some st)
    (listable : Listable db st (st.sections.map Prod.fst))
    (accepted : (ConfRequest.addShare form).accepts db = true)
    (fresh : form.name.getD [] ∉ st.sections.map Prod.fst)
    (plain : ∀ text ∈ [form.name.getD [], form.path.getD [], form.validUsers.getD []],
      ∀ c ∈ text, isNewline c = false) :
    ListsAdded db env conf form ↔ form.name.getD [] ≠ defaultSection ∧
      Unchanged db (addedValue form.fields st.defaults) (strip (form.path.getD [])) ∧
      Unchanged db (addedValue form.fields st.defaults) (strip (form.validUsers.getD [])) := by
  rcases accepted_name accepted with ⟨some, free⟩
  have before : getShares db conf = listShares db st (st.sections.map Prod.fst) := by
    rw [getShares, read]
  have body : ∀ text ∈ [form.path.getD [], form.validUsers.getD [], yesNo form.readOnly,
      yesNo form.guestOk], ∀ c ∈ text, isNewline c = false := by
    simp only [List.forall_mem_cons] at plain ⊢
    exact ⟨plain.2.1, plain.2.2.1, yesNo_plain _, yesNo_plain _, by simp⟩
  rcases read_addShareToConf read some (plain _ List.mem_cons_self) body with
    ⟨base, after, reread, values, names, sections, defaults⟩
  rw [ListsAdded, addShare_accepted accepted, before, getShares, reread]
  dsimp only
  by_cases proper : form.name.getD [] = defaultSection
  · -- the options go to the defaults, and there is no further section
    have same : after.sections.map Prod.fst = st.sections.map Prod.fst := by
      rw [sections, modify_names, ← names, State.openSection, proper]
      simp
    rw [same]
    constructor
    · intro longer
      have short := listShares_longest listable after
      rw [longer, List.length_append] at short
      exact absurd short (by simp)
    · intro other
      exact absurd proper other.1
  · have freshBase : form.name.getD [] ∉ base.sections.map Prod.fst := by rwa [names]
    rcases openSection_modify freshBase proper with ⟨opened, kept⟩
    rw [opened] at sections
    rw [kept] at defaults
    have own := rawValue_added values freshBase fresh sections defaults
    have others : ∀ name ∈ st.sections.map Prod.fst,
        shareOf db after name = shareOf db st name := by
      intro name member
      have away : name ≠ form.name.getD [] := by
        intro same
        exact fresh (same ▸ member)
      have rest : rawValue after name = rawValue st name := by
        rw [← values]
        funext key
        rw [rawValue, rawValue, sections, defaults, List.lookup_append, List.lookup_cons,
          beq_eq_false_iff_ne.mpr away]
        dsimp only
        rw [List.lookup_nil, Option.or_none]
      simp only [shareOf, State.get, rest]
    have listable' : Listable db after (st.sections.map Prod.fst) := by
      intro name member
      rw [others name member]
      exact listable name member
    have appended : after.sections.map Prod.fst = st.sections.map Prod.fst ++ [form.name.getD []] := by
      rw [sections, List.map_append, names]
      rfl
    rw [appended, listShares_append listable', listShares_congr others, List.append_cancel_left_eq,
      listShares, free, if_neg Bool.false_ne_true, ← shareOf_added own]
    cases shareOf db after (form.name.getD []) with
    | none => simp
    | some share => simp [listShares, proper]

/-- The new share follows the old list exactly if it is not named like the default section
and interpolation gives its fields back; fields without percent signs it gives back, and no
others where the defaults have none. -/
theorem lists_added_iff (db : CharData) (env : Env) (conf : Str) (form : ShareForm) (st : State)
    (read : ConfigParser.read db conf = some st)
    (listable : Listable db st (st.sections.map Prod.fst))
    (accepted : (ConfRequest.addShare form).accepts db = true)
    (fresh : form.name.getD [] ∉ st.sections.map Prod.fst)
    (plain : ∀ text ∈ [form.name.getD [], form.path.getD [], form.validUsers.getD []],
      ∀ c ∈ text, isNewline c = false) :
    (ListsAdded db env conf form ↔ form.name.getD [] ≠ defaultSection ∧
      ∀ text ∈ [form.path.getD [], form.validUsers.getD []], '%' ∈ text →
        Unchanged db (addedValue form.fields st.defaults) (strip text)) ∧
      ((∀ option ∈ st.defaults, '%' ∉ joined option.2) →
        (ListsAdded db env conf form ↔ form.name.getD [] ≠ defaultSection ∧
          '%' ∉ form.path.getD [] ∧ '%' ∉ form.validUsers.getD [])) := by
  have added := listsAdded_iff env read listable accepted fresh plain
  have signless (text : Str) : ('%' ∈ text →
      Unchanged db (addedValue form.fields st.defaults) (strip text)) ↔
        Unchanged db (addedValue form.fields st.defaults) (strip text) := by
    constructor
    · intro given
      by_cases sign : '%' ∈ text
      · exact given sign
      · apply interpolate_plain
        rwa [mem_strip (by decide)]
    · intro same _
      exact same
  constructor
  · rw [added]
    simp only [List.forall_mem_cons, signless]
    simp
  · intro clean
    rw [added, unchanged_fields clean]

theorem lists_added_docs :
    ListsAdded .ascii ⟨true, "dev".toList, "secret".toList⟩ twoShares
      (plainForm " /srv/nas/docs".toList) :=
  (lists_added_iff .ascii ⟨true, "dev".toList, "secret".toList⟩ twoShares
    (plainForm " /srv/nas/docs".toList)
    ⟨[("a".toList, [("path".toList, ["/a".toList])]), ("b".toList, [("path".toList, ["/b".toList])])],
      [], some "b".toList, some "path".toList, 0, false⟩
    (by decide +kernel) (by decide +kernel) (by decide +kernel) (by decide +kernel)
    (by
      simp only [List.forall_mem_cons, ← all_plain]
      decide +kernel)).1.mpr (by decide +kernel)

/-- A percent sign in the path ends the list before the new share. -/
theorem percent_not_listed :
    (ConfRequest.addShare (plainForm "/srv/50%".toList)).accepts .ascii = true ∧
      (getShares .ascii twoShares).map ShareInfo.name = ["a".toList, "b".toList] ∧
      ¬ListsAdded .ascii ⟨true, "dev".toList, "secret".toList⟩ twoShares
        (plainForm "/srv/50%".toList) := by
  unfold ListsAdded
  decide +kernel

end Added

end SmolNas.App
