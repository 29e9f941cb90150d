import SmolNas.App.SettingsSteps
import SmolNas.Py.Interpolation

/-! What the settings page reports after the settings update. -/

namespace SmolNas.App

open Py Py.ConfigParser

section Report

variable {db : CharData} {newConfig : List (Str × Str)} {fresh : List Str} {st st' : State}

/-- The value of an option on the settings page, unless it cannot be interpolated. -/
def reportedValue (db : CharData) (st : State) (name : Str) : Option Str :=
  (rawValue st globalSection (db.lower name)).bind
    (interpolate db (rawValue st globalSection) maxInterpolationDepth)

/-- The options that the page lists: those before the first whose value is missing. -/
def shown (value : Str → Option Str) (st : State) : List Str :=
  if st.sections.any (·.1 == globalSection) then (optionNames st).takeWhile fun name =>
    (value name).isSome
  else []

/-- The texts in `[global]` once the lines of the keys in `fresh` are replaced. -/
def renewedRaw (newConfig : List (Str × Str)) (fresh : List Str) (st : State) (key : Str) :
    Option Str :=
  if key ∈ fresh then (newValue newConfig key).map strip else rawValue st globalSection key

def renewedValue (db : CharData) (newConfig : List (Str × Str)) (fresh : List Str) (st : State)
    (name : Str) : Option Str :=
  (renewedRaw newConfig fresh st (db.lower name)).bind
    (interpolate db (renewedRaw newConfig fresh st) maxInterpolationDepth)

/-- A listed key with a new value is replaced or has that value anyway; the new values do not
change the value of another listed option, by `%(key)s`, nor bring out one that the list broke
off before. -/
def ReportKept (db : CharData) (newConfig : List (Str × Str)) (fresh : List Str) (st : State) :
    Prop :=
  (∀ name ∈ shown (reportedValue db st) st, ∀ value ∈ newValue newConfig name,
      name ∈ fresh ∨ renewedValue db newConfig fresh st name = some (strip value)) ∧
    (∀ name ∈ shown (reportedValue db st) st, newValue newConfig name = none →
      renewedValue db newConfig fresh st name = reportedValue db st name) ∧
    ∀ name ∈ shown (renewedValue db newConfig fresh st) st, newValue newConfig name = none →
      name ∈ shown (reportedValue db st) st

instance (db : CharData) (newConfig : List (Str × Str)) (fresh : List Str) (st : State) :
    Decidable (ReportKept db newConfig fresh st) :=
  inferInstanceAs (Decidable (_ ∧ _))

/-- The list does not break off at one of the keys, and none of the other options names one of
them. This is more than the update needs: it matters only where the list breaks off before one
of the keys, and which options the listed ones name. -/
def untangled (db : CharData) (fresh : List Str) (st : State) : Bool :=
  (((optionNames st).find? fun name => (reportedValue db st name).isNone).all fun name =>
      !fresh.contains name) &&
    (optionNames st).all fun name => fresh.contains name ||
      (refersTo ((rawValue st globalSection name).getD [])).all fun named =>
        !fresh.contains (db.lower named)

/-- What the settings page reports after the update: the new value of every key that it
reported before, and everything else as before. -/
structure ReportsUpdate (db : CharData) (newConfig : List (Str × Str)) (conf : Str) : Prop where
  given : ∀ key value, newValue newConfig key = some value →
    (getSambaGlobal db conf).lookup key ≠ none →
    (getSambaGlobal db (updateSambaGlobalConf newConfig conf)).lookup key = some (strip value)
  others : ∀ key, newValue newConfig key = none →
    (getSambaGlobal db (updateSambaGlobalConf newConfig conf)).lookup key =
      (getSambaGlobal db conf).lookup key
  sections : ∀ section', section' ≠ globalSection → ∀ option fallback,
    (ConfigParser.read db (updateSambaGlobalConf newConfig conf)).map
        (State.get db · section' option fallback) =
      (ConfigParser.read db conf).map (State.get db · section' option fallback)

theorem optionNames_beside (beside : Beside globalSection (newValue newConfig) fresh st st') :
    optionNames st' = optionNames st := by
  have own := beside.own.names
  unfold ownOptions at own
  unfold optionNames
  rw [own, beside.defaults]

theorem mem_optionNames {key value : Str} (found : rawValue st globalSection key = some value) :
    key ∈ optionNames st := by
  have own {lines : List Str} (inside : ((st.sections.lookup globalSection).getD []).lookup key =
      some lines) : key ∈ ((st.sections.lookup globalSection).getD []).map Prod.fst :=
    List.mem_map_of_mem (mem_of_lookup inside)
  rw [rawValue, Option.map_eq_some_iff] at found
  rcases found with ⟨lines, found, -⟩
  unfold optionNames
  dsimp only
  rcases Option.or_eq_some_iff.mp found with inside | ⟨-, inside⟩
  · exact List.mem_append_left _ (own inside)
  · have default' : key ∈ st.defaults.map Prod.fst := List.mem_map_of_mem (mem_of_lookup inside)
    by_cases listed : key ∈ ((st.sections.lookup globalSection).getD []).map Prod.fst
    · exact List.mem_append_left _ listed
    · refine List.mem_append_right _ (List.mem_filter.mpr ⟨default', ?_⟩)
      rw [Bool.not_eq_true', ← Bool.not_eq_true, List.contains_iff_mem]
      exact listed

theorem globalItems_cons (db : CharData) (config : State) (name : Str) (names : List Str) :
    globalItems db config (name :: names) = (reportedValue db config name).elim [] fun value =>
      (name, value) :: globalItems db config names := by
  rw [globalItems, reportedValue]
  cases (rawValue config globalSection (db.lower name)).bind
    (interpolate db (rawValue config globalSection) maxInterpolationDepth) <;> rfl

theorem lookup_globalItems (key : Str) (names : List Str) :
    (globalItems db st names).lookup key =
      if key ∈ names.takeWhile (fun name => (reportedValue db st name).isSome) then
        reportedValue db st key else none := by
  induction names with
  | nil => rfl
  | cons name names ih =>
      rw [globalItems_cons, List.takeWhile_cons]
      cases found : reportedValue db st name with
      | none => rfl
      | some value =>
          rw [Option.elim_some, Option.isSome_some, if_pos rfl]
          by_cases same : key = name
          · rw [same, List.lookup_cons_self, if_pos List.mem_cons_self, found]
          · rw [List.lookup_cons, beq_eq_false_iff_ne.mpr same]
            simp only [List.mem_cons, same, false_or]
            exact ih

theorem lookup_getSambaGlobal {conf : Str} (read : ConfigParser.read db conf = some st)
    (key : Str) : (getSambaGlobal db conf).lookup key =
      if key ∈ shown (reportedValue db st) st then reportedValue db st key else none := by
  rw [getSambaGlobal, read]
  dsimp only
  rw [shown]
  split
  · exact lookup_globalItems key _
  · rfl

theorem isSome_of_shown {name : Str} {value : Str → Option Str}
    (member : name ∈ shown value st) : (value name).isSome = true := by
  unfold shown at member
  split at member
  · exact List.mem_takeWhile_imp (p := fun name => (value name).isSome) member
  · cases member

theorem optionNames_of_shown {name : Str} {value : Str → Option Str}
    (member : name ∈ shown value st) : name ∈ optionNames st := by
  unfold shown at member
  split at member
  · exact (List.takeWhile_sublist _).subset member
  · cases member

theorem shown_congr {value value' : Str → Option Str}
    (cut : ∀ name, ((optionNames st).find? fun name => (value name).isNone) = some name →
      value' name = none)
    (kept : ∀ name ∈ optionNames st, (value name).isSome = true → (value' name).isSome = true) :
    shown value' st = shown value st := by
  unfold shown
  split
  · generalize optionNames st = names at cut kept
    induction names with
    | nil => rfl
    | cons name names ih =>
        rw [List.takeWhile_cons, List.takeWhile_cons]
        cases found : value name with
        | none =>
            have none' := cut name (by rw [List.find?_cons, found]; rfl)
            rw [none']
            rfl
        | some text =>
            have some' := kept name List.mem_cons_self (by rw [found]; rfl)
            rw [some', Option.isSome_some, if_pos rfl, if_pos rfl]
            rw [ih (fun other first => cut other (by rw [List.find?_cons, found]; exact first))
              fun other member => kept other (List.mem_cons_of_mem name member)]
  · rfl

theorem shown_mono {value : Str → Option Str} (value' : Str → Option Str)
    (kept : ∀ name ∈ shown value st, (value' name).isSome = true) :
    ∀ name ∈ shown value st, name ∈ shown value' st := by
  unfold shown at kept ⊢
  split
  next present =>
    rw [if_pos present] at kept
    generalize optionNames st = names at kept
    induction names with
    | nil =>
        intro name member
        cases member
    | cons first names ih =>
        intro name member
        rw [List.takeWhile_cons] at kept member ⊢
        cases found : (value first).isSome with
        | false =>
            rw [found] at member
            cases member
        | true =>
            rw [found, if_pos rfl] at kept member
            rw [kept first List.mem_cons_self, if_pos rfl]
            rcases List.mem_cons.mp member with same | later
            · rw [same]
              exact List.mem_cons_self
            · exact List.mem_cons_of_mem _ (ih
                (fun other inside => kept other (List.mem_cons_of_mem _ inside)) name later)
  next =>
    intro name member
    cases member

theorem lower_optionNames (stable : db.LowerStable) (lowered : Lowered db st) :
    ∀ name ∈ optionNames st, db.lower name = name := by
  have fixed {options : Options} (lower : LowerNames db options) :
      ∀ name ∈ options.map Prod.fst, db.lower name = name := by
    intro name member
    rcases List.mem_map.mp member with ⟨o, inside, same⟩
    rcases lower o inside with ⟨source, whole⟩
    rw [← same, whole, stable]
  intro name member
  unfold optionNames at member
  dsimp only at member
  rcases List.mem_append.mp member with own | default'
  · cases found : st.sections.lookup globalSection with
    | none =>
        rw [found] at own
        cases own
    | some options =>
        rw [found] at own
        exact fixed (lowered.sections _ (mem_of_lookup found)) name own
  · exact fixed lowered.defaults name (List.mem_filter.mp default').1

theorem rawValue_beside (beside : Beside globalSection (newValue newConfig) fresh st st') :
    rawValue st' globalSection = renewedRaw newConfig fresh st := by
  funext key
  rw [renewedRaw]
  split
  next member =>
    rcases rawValue_changed beside member with ⟨value, given, found⟩
    rw [found, given, Option.map_some]
  next old => exact rawValue_kept beside old

theorem reportedValue_beside (beside : Beside globalSection (newValue newConfig) fresh st st') :
    reportedValue db st' = renewedValue db newConfig fresh st := by
  funext name
  rw [reportedValue, renewedValue, rawValue_beside beside]

theorem shown_beside (beside : Beside globalSection (newValue newConfig) fresh st st')
    (value : Str → Option Str) : shown value st' = shown value st := by
  rw [shown, shown, any_eq_lookup, any_eq_lookup, beside.present, optionNames_beside beside]

theorem given_of_fresh (beside : Beside globalSection (newValue newConfig) fresh st st')
    {key : Str} (member : key ∈ fresh) : ∃ value, newValue newConfig key = some value := by
  rcases beside.own.changed key member with ⟨value, given, -⟩
  exact ⟨value, given⟩

theorem renewedValue_fresh (stable : db.LowerStable) (plain : PlainTexts newConfig)
    (lowered : Lowered db st) {name value : Str} (listed : name ∈ optionNames st)
    (member : name ∈ fresh) (given : newValue newConfig name = some value) :
    renewedValue db newConfig fresh st name = some (strip value) := by
  rw [renewedValue, lower_optionNames stable lowered name listed, renewedRaw, if_pos member, given,
    Option.map_some, Option.bind_some]
  apply interpolate_plain
  rw [mem_strip (by decide)]
  exact (plain _ _ (newValue_spec given).2).2

theorem renewedValue_kept (newConfig : List (Str × Str)) (stable : db.LowerStable)
    (lowered : Lowered db st) (apart : untangled db fresh st = true) {name : Str}
    (listed : name ∈ optionNames st) (old : name ∉ fresh) :
    renewedValue db newConfig fresh st name = reportedValue db st name := by
  simp only [untangled, Bool.and_eq_true, List.all_eq_true, Bool.or_eq_true, Bool.not_eq_true',
    List.contains_eq_mem, decide_eq_true_eq, decide_eq_false_iff_not] at apart
  have free : ∀ key, key ∉ fresh → ∀ value, rawValue st globalSection key = some value →
      ∀ named ∈ refersTo value, db.lower named ∉ fresh := by
    intro key old value found
    rcases apart.2 key (mem_optionNames found) with new | names
    · exact absurd new old
    · rw [found] at names
      exact names
  rw [renewedValue, reportedValue, lower_optionNames stable lowered name listed]
  have same (key : Str) (away : key ∉ fresh) :
      renewedRaw newConfig fresh st key = rawValue st globalSection key := if_neg away
  rw [same name old]
  cases found : rawValue st globalSection name with
  | none => rw [Option.bind_none, Option.bind_none]
  | some value =>
      rw [Option.bind_some, Option.bind_some]
      exact interpolate_congr same free (free name old value found) maxInterpolationDepth

/-- For untangled files only the listed keys with new values matter. -/
theorem reportKept_iff (stable : db.LowerStable) (plain : PlainTexts newConfig)
    (lowered : Lowered db st) (given : ∀ key ∈ fresh, ∃ value, newValue newConfig key = some value)
    (apart : untangled db fresh st = true) :
    ReportKept db newConfig fresh st ↔
      ∀ key value, newValue newConfig key = some value → key ∈ shown (reportedValue db st) st →
        key ∈ fresh ∨ reportedValue db st key = some (strip value) := by
  have kept {name : Str} (listed : name ∈ optionNames st) (old : name ∉ fresh) :=
    renewedValue_kept newConfig stable lowered apart listed old
  constructor
  · intro report key value new listed
    by_cases member : key ∈ fresh
    · exact .inl member
    · right
      rw [← kept (optionNames_of_shown listed) member]
      exact (report.1 key listed value new).resolve_left member
  · intro covered
    refine ⟨?_, ?_, ?_⟩
    · intro name listed value new
      by_cases member : name ∈ fresh
      · exact .inl member
      · right
        rw [kept (optionNames_of_shown listed) member]
        exact (covered name value new listed).resolve_left member
    · intro name listed absent
      apply kept (optionNames_of_shown listed)
      intro member
      rcases given name member with ⟨value, new⟩
      rw [absent] at new
      cases new
    · intro name listed _
      have same : shown (renewedValue db newConfig fresh st) st =
          shown (reportedValue db st) st := by
        apply shown_congr
        · intro other first
          have away : other ∉ fresh := by
            intro member
            rw [untangled, first, Bool.and_eq_true, Option.all_some, Bool.not_eq_true'] at apart
            rw [List.contains_iff_mem.mpr member] at apart
            cases apart.1
          rw [kept (List.mem_of_find?_eq_some first) away]
          have missing := List.find?_some first
          exact Option.isNone_iff_eq_none.mp missing
        · intro other inside found
          by_cases member : other ∈ fresh
          · rcases given other member with ⟨value, new⟩
            rw [renewedValue_fresh stable plain lowered inside member new]
            rfl
          · rw [kept inside member]
            exact found
      rwa [same] at listed

theorem reportsUpdate_unread {conf : Str} (none : ConfigParser.read db conf = none)
    (none' : ConfigParser.read db (updateSambaGlobalConf newConfig conf) = .none) :
    getSambaGlobal db conf = [] ∧ ReportsUpdate db newConfig conf := by
  have empty : getSambaGlobal db conf = [] := by rw [getSambaGlobal, none]
  have empty' : getSambaGlobal db (updateSambaGlobalConf newConfig conf) = [] := by
    rw [getSambaGlobal, none']
  refine ⟨empty, ?_, ?_, ?_⟩
  · intro key value _ reported
    rw [empty] at reported
    exact absurd rfl reported
  · intro key _
    rw [empty, empty']
  · intro section' _ option fallback
    rw [none, none']

theorem reportsUpdate_beside (stable : db.LowerStable) (plain : PlainTexts newConfig)
    (lowered : Lowered db st) (beside : Beside globalSection (newValue newConfig) fresh st st')
    {conf : Str} (read : ConfigParser.read db conf = some st)
    (read' : ConfigParser.read db (updateSambaGlobalConf newConfig conf) = some st') :
    ReportsUpdate db newConfig conf ↔ ReportKept db newConfig fresh st := by
  have before := lookup_getSambaGlobal read
  have after (key : Str) :
      (getSambaGlobal db (updateSambaGlobalConf newConfig conf)).lookup key =
        if key ∈ shown (renewedValue db newConfig fresh st) st then
          renewedValue db newConfig fresh st key else none := by
    rw [lookup_getSambaGlobal read', reportedValue_beside beside, shown_beside beside]
  constructor
  · intro reports
    refine ⟨?_, ?_, ?_⟩
    · intro name listed value new
      have found := isSome_of_shown listed
      have given := reports.given name value new (by
        rw [before, if_pos listed]
        exact Option.isSome_iff_ne_none.mp found)
      rw [after] at given
      split at given
      · exact .inr given
      · cases given
    · intro name listed absent
      have others := reports.others name absent
      rw [before, if_pos listed, after] at others
      split at others
      · exact others
      · have found := isSome_of_shown listed
        rw [← others] at found
        cases found
    · intro name listed absent
      have others := reports.others name absent
      rw [before, after, if_pos listed] at others
      by_contra hidden
      rw [if_neg hidden] at others
      have found := isSome_of_shown listed
      rw [others] at found
      cases found
  · intro kept
    have renewed : ∀ name ∈ shown (reportedValue db st) st, ∀ value,
        newValue newConfig name = some value →
          renewedValue db newConfig fresh st name = some (strip value) := by
      intro name listed value new
      rcases kept.1 name listed value new with member | same
      · exact renewedValue_fresh stable plain lowered (optionNames_of_shown listed) member new
      · exact same
    have still := shown_mono (renewedValue db newConfig fresh st) fun name listed => by
      cases new : newValue newConfig name with
      | none =>
          rw [kept.2.1 name listed new]
          exact isSome_of_shown listed
      | some value =>
          rw [renewed name listed value new]
          rfl
    refine ⟨?_, ?_, ?_⟩
    · intro key value new reported
      rw [before] at reported
      have listed : key ∈ shown (reportedValue db st) st := by
        by_contra hidden
        exact reported (if_neg hidden)
      rw [after, if_pos (still key listed)]
      exact renewed key listed value new
    · intro key absent
      rw [before, after]
      by_cases listed : key ∈ shown (reportedValue db st) st
      · rw [if_pos listed, if_pos (still key listed)]
        exact kept.2.1 key listed absent
      · rw [if_neg listed, if_neg fun late => listed (kept.2.2 key late absent)]
    · intro section' other option fallback
      rw [read, read', Option.map_some, Option.map_some, State.get, State.get,
        rawValue_others beside other]

end Report

/-- Where the scan and the parser keep in step, the page reports the update exactly if the new
values of the replaced lines keep the rest of the report. In an untangled file they do so
exactly if the last line of every reported key is one that the scan replaces, or has the new
value already. -/
theorem reports_update_iff (db : CharData) (stable : db.LowerStable)
    (newConfig : List (Str × Str)) (plain : PlainTexts newConfig) (conf : Str) (fresh : List Str)
    (steps : inStep db newConfig .empty false false [] (readlines conf) = some fresh) :
    (ReportsUpdate db newConfig conf ↔
      ∀ st, ConfigParser.read db conf = some st → ReportKept db newConfig fresh st) ∧
    ((ConfigParser.read db conf).all (untangled db fresh) = true →
      (ReportsUpdate db newConfig conf ↔ ∀ key value, newValue newConfig key = some value →
        ∀ old, (getSambaGlobal db conf).lookup key = some old →
          key ∈ fresh ∨ old = strip value)) := by
  rcases read_update plain steps with ⟨none, none'⟩ | ⟨st, st', read, read', beside⟩
  · rcases reportsUpdate_unread none none' with ⟨empty, reports⟩
    refine ⟨iff_of_true reports fun st read => ?_, fun _ => iff_of_true reports ?_⟩
    · rw [none] at read
      cases read
    · intro key value _ old found
      rw [empty] at found
      cases found
  · have lowered : Lowered db st := by
      have lines := (Option.filter_eq_some_iff.mp read).1
      exact lowered_readLines ⟨by simp [State.empty], by simp [State.empty, LowerNames]⟩ lines
    have kept := reportsUpdate_beside stable plain lowered beside read read'
    constructor
    · rw [kept, read]
      exact ⟨fun report st same => Option.some.inj same ▸ report, fun all => all st rfl⟩
    · intro apart
      rw [read, Option.all_some] at apart
      rw [kept, reportKept_iff stable plain lowered (fun _ => given_of_fresh beside) apart]
      refine forall_congr' fun key => forall_congr' fun value => forall_congr' fun new => ?_
      rw [lookup_getSambaGlobal read]
      constructor
      · intro covered old found
        split at found
        next listed =>
          refine (covered listed).imp_right fun same => ?_
          exact Option.some.inj (found.symm.trans same)
        next => cases found
      · intro covered listed
        rcases Option.isSome_iff_exists.mp (isSome_of_shown listed) with ⟨old, found⟩
        rw [if_pos listed] at covered
        rw [found]
        exact (covered old found).imp_right (congrArg some)

def officeForm : GlobalForm := ⟨some " OFFICE".toList, none, none, none, none⟩

def settingsConf : Str :=
  "[global]\n   Map To Guest = x\n\n   map to guest = y\n[docs]\npath = /%%d\n".toList

def namesForm : GlobalForm := ⟨some "OFFICE".toList, some "NAS".toList, none, none, none⟩

/-- The list of the options breaks off at a key that is replaced. -/
def brokenOffConf : Str := "[global]\n   workgroup = HOME\n   netbios name = %h\n".toList

theorem plainTexts_of {newConfig : List (Str × Str)}
    (entries : ∀ entry ∈ newConfig,
      entry.2.all (!isNewline ·) = true ∧ entry.2.contains '%' = false) :
    PlainTexts newConfig := by
  intro key value given
  rcases entries _ (mem_of_lookup given) with ⟨line, sign⟩
  refine ⟨all_plain.mp line, ?_⟩
  rw [← List.contains_iff_mem, sign]
  exact Bool.false_ne_true

theorem officeForm_plain : PlainTexts officeForm.newConf := plainTexts_of (by decide)

theorem namesForm_plain : PlainTexts namesForm.newConf := plainTexts_of (by decide)

theorem reports_update_office : ReportsUpdate .ascii officeForm.newConf settingsConf ∧
    ReportsUpdate .ascii namesForm.newConf brokenOffConf := by
  constructor
  · have listed : ∀ key ∈ keysToUpdate, (getSambaGlobal .ascii settingsConf).lookup key = none ∨
        key ∈ ["map to guest".toList] := by decide +kernel
    refine ((reports_update_iff .ascii CharData.ascii_lowerStable officeForm.newConf
      officeForm_plain settingsConf ["map to guest".toList] (by decide +kernel)).2
      (by decide +kernel)).mpr ?_
    intro key value given old found
    rcases listed key (newValue_spec given).1 with absent | member
    · rw [absent] at found
      cases found
    · exact .inl member
  · refine (reports_update_iff .ascii CharData.ascii_lowerStable namesForm.newConf namesForm_plain
      brokenOffConf ["netbios name".toList, "workgroup".toList] (by decide +kernel)).1.mpr ?_
    have kept : (ConfigParser.read .ascii brokenOffConf).all (fun st => decide (ReportKept .ascii
        namesForm.newConf ["netbios name".toList, "workgroup".toList] st)) = true := by
      decide +kernel
    intro st read
    rw [read, Option.all_some, decide_eq_true_iff] at kept
    exact kept

/-- A key in capital letters is reported by the page, and never found by the update. -/
theorem capital_key_not_updated : PlainTexts officeForm.newConf ∧
    ¬ReportsUpdate .ascii officeForm.newConf "[global]\n   Workgroup = HOME\n".toList := by
  refine ⟨officeForm_plain, ?_⟩
  intro reports
  have new := reports.given "workgroup".toList " OFFICE".toList (by decide +kernel) (by decide +kernel)
  revert new
  decide +kernel

end SmolNas.App
