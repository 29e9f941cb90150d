import SmolNas.Py.ConfigReads

/-! Reading a file in which some options of one section were given new values, beside the
file as it was: what both have read. -/

namespace SmolNas.Py.ConfigParser

section Options

variable {new : Str → Option Str} {fresh : List Str} {options options' : Options}

/-- The second options have the new values of the keys in `fresh`, and else the same. -/
structure Renewed (new : Str → Option Str) (fresh : List Str) (options options' : Options) :
    Prop where
  names : options'.map Prod.fst = options.map Prod.fst
  kept : ∀ key, key ∉ fresh → options'.lookup key = options.lookup key
  changed : ∀ key ∈ fresh, ∃ value, new key = some value ∧
    (options'.lookup key).map joined = some (strip value)

theorem extendOption_names (name line : Str) (options : Options) :
    (extendOption name line options).map Prod.fst = options.map Prod.fst := by
  rw [extendOption, List.map_map]
  apply List.map_congr_left
  intro o _
  rw [Function.comp_apply]
  split
  next same => exact same.symm
  next => rfl

theorem setOption_names (options : Options) (name : Str) (value : List Str) :
    (setOption options name value).map Prod.fst =
      if name ∈ options.map Prod.fst then options.map Prod.fst
      else options.map Prod.fst ++ [name] := by
  have known : options.any (·.1 == name) = true ↔ name ∈ options.map Prod.fst := by
    simp [List.any_eq_true, List.mem_map]
  rw [setOption]
  by_cases present : name ∈ options.map Prod.fst
  · rw [if_pos (known.mpr present), if_pos present, List.map_map]
    apply List.map_congr_left
    intro o _
    rw [Function.comp_apply]
    split
    next same => exact same.symm
    next => rfl
  · rw [if_neg (fun any => present (known.mp any)), if_neg present, List.map_append]
    rfl

theorem Renewed.extend (renewed : Renewed new fresh options options') {name line : Str}
    (same : name ∉ fresh ∨ line = []) :
    Renewed new fresh (extendOption name line options) (extendOption name line options') := by
  refine ⟨?_, ?_, ?_⟩
  · rw [extendOption_names, extendOption_names, renewed.names]
  · intro key other
    rw [lookup_extendOption, lookup_extendOption, renewed.kept key other]
  · intro key member
    rcases renewed.changed key member with ⟨value, given, found⟩
    refine ⟨value, given, ?_⟩
    rw [lookup_extendOption]
    split
    next own =>
      have blank : line = [] := same.resolve_left (fun away => away (own ▸ member))
      rw [blank, Option.map_map, ← found]
      congr 1
      funext lines
      exact joined_blank lines
    next => exact found

theorem Renewed.set (renewed : Renewed new fresh options options') (name : Str)
    (value : List Str) :
    Renewed new (fresh.filter (· != name)) (setOption options name value)
      (setOption options' name value) := by
  refine ⟨?_, ?_, ?_⟩
  · rw [setOption_names, setOption_names, renewed.names]
  · intro key other
    rw [lookup_setOption, lookup_setOption]
    split
    next => rfl
    next away =>
      apply renewed.kept
      intro member
      exact other (List.mem_filter.mpr ⟨member, bne_iff_ne.mpr away⟩)
  · intro key member
    rcases List.mem_filter.mp member with ⟨inside, away⟩
    rw [lookup_setOption, if_neg (bne_iff_ne.mp away)]
    exact renewed.changed key inside

theorem Renewed.renew (renewed : Renewed new fresh options options') {name value : Str}
    (given : new name = some value) (old : List Str) :
    Renewed new (name :: fresh) (setOption options name old)
      (setOption options' name [strip value]) := by
  refine ⟨?_, ?_, ?_⟩
  · rw [setOption_names, setOption_names, renewed.names]
  · intro key other
    rw [List.mem_cons, not_or] at other
    rw [lookup_setOption, lookup_setOption, if_neg other.1, if_neg other.1]
    exact renewed.kept key other.2
  · intro key member
    rw [lookup_setOption]
    split
    next own =>
      refine ⟨value, by rw [own, given], ?_⟩
      rw [Option.map_some, joined_strip]
    next away => exact renewed.changed key ((List.mem_cons.mp member).resolve_left away)

end Options

section States

variable {db : CharData} {n : Str} {new : Str → Option Str} {fresh : List Str}
  {st st' : State}

def ownOptions (n : Str) (st : State) : Options := (st.sections.lookup n).getD []

/-- The same sections and defaults, but for the renewed options of section `n`. -/
structure Beside (n : Str) (new : Str → Option Str) (fresh : List Str) (st st' : State) : Prop where
  defaults : st'.defaults = st.defaults
  others : ∀ name, name ≠ n → st'.sections.lookup name = st.sections.lookup name
  present : (st'.sections.lookup n).isSome = (st.sections.lookup n).isSome
  own : Renewed new fresh (ownOptions n st) (ownOptions n st')
  inside : st.cursect = some n → (st.sections.lookup n).isSome = true

theorem ownOptions_modify (proper : n ≠ defaultSection) (f : Options → Options)
    (inside : st.cursect = some n → (st.sections.lookup n).isSome = true) :
    ownOptions n (st.modify f) =
      if st.cursect = some n then f (ownOptions n st) else ownOptions n st := by
  rw [ownOptions, modify_lookup]
  by_cases here : st.cursect = some n
  · rcases Option.isSome_iff_exists.mp (inside here) with ⟨options, found⟩
    rw [if_pos ⟨here, proper⟩, if_pos here, ownOptions, found]
    rfl
  · rw [if_neg (fun both => here both.1), if_neg here, ownOptions]

theorem lookup_modify_isSome (f : Options → Options) (st : State) (name : Str) :
    ((st.modify f).sections.lookup name).isSome = (st.sections.lookup name).isSome := by
  rw [modify_lookup]
  split
  · rw [Option.isSome_map]
  · rfl

theorem Beside.modify (beside : Beside n new fresh st st') (proper : n ≠ defaultSection)
    (same : st'.cursect = st.cursect) {f f' : Options → Options} {fresh' : List Str}
    (outside : st.cursect ≠ some n → f' = f ∧ fresh' = fresh)
    (here : st.cursect = some n →
      Renewed new fresh' (f (ownOptions n st)) (f' (ownOptions n st'))) :
    Beside n new fresh' (st.modify f) (st'.modify f') := by
  have inside' : st'.cursect = some n → (st'.sections.lookup n).isSome = true := by
    intro current
    rw [beside.present]
    exact beside.inside (same ▸ current)
  refine ⟨?_, ?_, ?_, ?_, ?_⟩
  · rw [modify_defaults, modify_defaults, same, beside.defaults]
    split
    next default' =>
      have away : st.cursect ≠ some n := by
        rw [default']
        exact fun equal => proper (Option.some.inj equal).symm
      rw [(outside away).1]
    next => rfl
  · intro name other
    rw [modify_lookup, modify_lookup, same, beside.others name other]
    split
    next current =>
      have away : st.cursect ≠ some n := by
        rw [current.1]
        exact fun equal => other (Option.some.inj equal)
      rw [(outside away).1]
    next => rfl
  · rw [lookup_modify_isSome, lookup_modify_isSome, beside.present]
  · rw [ownOptions_modify proper f beside.inside, ownOptions_modify proper f' inside', same]
    by_cases current : st.cursect = some n
    · rw [if_pos current, if_pos current]
      exact here current
    · rw [if_neg current, if_neg current, (outside current).2]
      exact beside.own
  · intro current
    rw [modify_cursect] at current
    rw [lookup_modify_isSome]
    exact beside.inside current

theorem any_eq_lookup (st : State) (name : Str) :
    st.sections.any (·.1 == name) = (st.sections.lookup name).isSome := by
  rw [Bool.eq_iff_iff, List.lookup_isSome_iff, List.any_eq_true]
  constructor
  · rintro ⟨s, member, same⟩
    exact ⟨s, member, by rw [beq_iff_eq.mp same, beq_self_eq_true]⟩
  · rintro ⟨s, member, same⟩
    exact ⟨s, member, by rw [beq_iff_eq.mp same, beq_self_eq_true]⟩

theorem lookup_openSection (st : State) (name : Str) (indent : Nat) (section' : Str) :
    (st.openSection name indent).sections.lookup section' =
      if section' = name ∧ name ≠ defaultSection ∧ (st.sections.lookup name).isSome = false then
        some []
      else st.sections.lookup section' := by
  unfold State.openSection
  dsimp only
  rw [any_eq_lookup]
  by_cases fresh : name ≠ defaultSection ∧ (st.sections.lookup name).isSome = false
  · rw [fresh.2, beq_eq_false_iff_ne.mpr fresh.1, Bool.false_or, if_neg Bool.false_ne_true,
      List.lookup_append, List.lookup_cons, List.lookup_nil]
    by_cases same : section' = name
    · have none : st.sections.lookup name = none :=
        Option.isNone_iff_eq_none.mp (Option.isSome_eq_false_iff.mp fresh.2)
      rw [if_pos ⟨same, fresh.1, rfl⟩, same, none, beq_self_eq_true]
      rfl
    · rw [if_neg (fun both => same both.1), beq_eq_false_iff_ne.mpr same]
      exact Option.or_none
  · have old : ((st.sections.lookup name).isSome || name == defaultSection) = true := by
      rw [Bool.or_eq_true, beq_iff_eq]
      by_contra other
      rw [not_or, Bool.not_eq_true] at other
      exact fresh ⟨other.2, other.1⟩
    have away : ¬(section' = name ∧ name ≠ defaultSection ∧
        (st.sections.lookup name).isSome = false) := fun both => fresh both.2
    rw [if_pos old, if_neg away]

theorem rawValue_others (beside : Beside n new fresh st st') {name : Str} (other : name ≠ n) :
    rawValue st' name = rawValue st name := by
  funext option
  rw [rawValue, rawValue, beside.others name other, beside.defaults]

theorem rawValue_kept (beside : Beside n new fresh st st') {key : Str} (old : key ∉ fresh) :
    rawValue st' n key = rawValue st n key := by
  have own := beside.own.kept key old
  unfold ownOptions at own
  rw [rawValue, rawValue, own, beside.defaults]

theorem rawValue_changed (beside : Beside n new fresh st st') {key : Str} (member : key ∈ fresh) :
    ∃ value, new key = some value ∧ rawValue st' n key = some (strip value) := by
  rcases beside.own.changed key member with ⟨value, given, found⟩
  unfold ownOptions at found
  refine ⟨value, given, ?_⟩
  rw [rawValue, Option.map_or, found]
  rfl

end States

section Lower

variable {db : CharData} {st st' : State}

def LowerNames (db : CharData) (options : Options) : Prop :=
  ∀ o ∈ options, ∃ name, o.1 = db.lower name

structure Lowered (db : CharData) (st : State) : Prop where
  sections : ∀ s ∈ st.sections, LowerNames db s.2
  defaults : LowerNames db st.defaults

theorem lowerNames_extend {options : Options} (lower : LowerNames db options) (name line : Str) :
    LowerNames db (extendOption name line options) := by
  intro o member
  rcases List.mem_map.mp member with ⟨source, inside, whole⟩
  rw [← whole]
  split
  next same =>
    rw [← same]
    exact lower source inside
  next => exact lower source inside

theorem lowerNames_set {options : Options} (lower : LowerNames db options) (name : Str)
    (value : List Str) : LowerNames db (setOption options (db.lower name) value) := by
  intro o member
  unfold setOption at member
  split at member
  · rcases List.mem_map.mp member with ⟨source, inside, whole⟩
    rw [← whole]
    split
    · exact ⟨name, rfl⟩
    · exact lower source inside
  · rcases List.mem_append.mp member with old | new
    · exact lower o old
    · rw [List.mem_singleton.mp new]
      exact ⟨name, rfl⟩

theorem lowered_modify (lowered : Lowered db st) {f : Options → Options}
    (keeps : ∀ options, LowerNames db options → LowerNames db (f options)) :
    Lowered db (st.modify f) := by
  unfold State.modify
  split
  · exact lowered
  · split
    · exact ⟨lowered.sections, keeps _ lowered.defaults⟩
    · refine ⟨?_, lowered.defaults⟩
      intro s member
      rcases List.mem_map.mp member with ⟨source, inside, whole⟩
      rw [← whole]
      split
      · exact keeps _ (lowered.sections source inside)
      · exact lowered.sections source inside

theorem lowered_readLine (lowered : Lowered db st) {line : Str}
    (read : readLine db st line = some st') : Lowered db st' := by
  have extended (text : Str) : Lowered db (st.extend text) := by
    unfold State.extend
    split
    · exact lowered
    · exact lowered_modify lowered fun _ lower => lowerNames_extend lower _ text
  unfold readLine at read
  cases kind : lineKind st line <;> rw [kind] at read <;> cases read
  case comment => exact lowered
  case blank => exact extended []
  case continuation => exact extended (strip line)
  case header name =>
    refine ⟨?_, lowered.defaults⟩
    intro s member
    simp only [State.openSection] at member
    split at member
    next => exact lowered.sections s member
    next =>
      rcases List.mem_append.mp member with old | new
      · exact lowered.sections s old
      · rw [List.mem_singleton.mp new]
        intro o none
        cases none
  case option =>
    unfold readOption
    dsimp only
    split
    · exact ⟨lowered.sections, lowered.defaults⟩
    next name value _ =>
      have moved : Lowered db { st with indentLevel := indentOf line } :=
        ⟨lowered.sections, lowered.defaults⟩
      have set := lowered_modify moved
        (f := fun options => setOption options (db.lower name) [value])
        fun _ lower => lowerNames_set lower name [value]
      exact ⟨set.sections, set.defaults⟩

theorem lowered_readLines (lowered : Lowered db st) {lines : List Str}
    (read : readLines db st lines = some st') : Lowered db st' := by
  induction lines generalizing st with
  | nil =>
      cases read
      exact lowered
  | cons line lines ih =>
      rcases Option.bind_eq_some_iff.mp read with ⟨next, first, rest⟩
      exact ih (lowered_readLine lowered first) rest

end Lower

end SmolNas.Py.ConfigParser
