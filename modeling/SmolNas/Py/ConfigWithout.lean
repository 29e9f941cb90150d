import SmolNas.Py.ConfigParser

/-! Reading a file without the lines of one section: the parser ends in the same state,
but for that section. -/

namespace SmolNas.Py.ConfigParser

section Without

variable {db : CharData} {n : Str}

/-- The second state has read a file without some lines of section `n`. Outside of
these lines both are in the same section and at the same option. -/
structure Follows (n : Str) (skip : Bool) (full rest : State) : Prop where
  sections : rest.sections = full.sections.filter (·.1 != n)
  defaults : rest.defaults = full.defaults
  failed : rest.failed = true → full.failed = true
  same : skip = false → rest.cursect = full.cursect ∧ rest.optname = full.optname ∧
    rest.indentLevel = full.indentLevel

theorem filter_modify (name : Str) (f : Options → Options) (sections : List (Str × Options)) :
    (sections.map fun s => if s.1 = name then (s.1, f s.2) else s).filter (·.1 != n) =
      (sections.filter (·.1 != n)).map fun s => if s.1 = name then (s.1, f s.2) else s := by
  rw [List.filter_map]
  congr 1
  apply List.filter_congr
  intro s _
  simp only [Function.comp_apply]
  split <;> rfl

theorem filter_modify_self (f : Options → Options) (sections : List (Str × Options)) :
    (sections.map fun s => if s.1 = n then (s.1, f s.2) else s).filter (·.1 != n) =
      sections.filter (·.1 != n) := by
  rw [filter_modify]
  refine (List.map_congr_left ?_).trans (List.map_id _)
  intro s member
  have other : s.1 ≠ n := by simpa using (List.mem_filter.mp member).2
  rw [if_neg other]
  rfl

theorem modify_cursect (f : Options → Options) (st : State) : (st.modify f).cursect = st.cursect := by
  unfold State.modify
  split
  · rfl
  · split <;> simp_all

theorem modify_rest (f : Options → Options) (st : State) :
    (st.modify f).optname = st.optname ∧ (st.modify f).indentLevel = st.indentLevel ∧
      (st.modify f).failed = st.failed := by
  unfold State.modify
  split
  · exact ⟨rfl, rfl, rfl⟩
  · split <;> exact ⟨rfl, rfl, rfl⟩

theorem follows_modify {full rest : State} (follows : Follows n false full rest)
    (f : Options → Options) : Follows n false (full.modify f) (rest.modify f) := by
  obtain ⟨cursect, optname, indent⟩ := follows.same rfl
  have fullRest := modify_rest f full
  have restRest := modify_rest f rest
  have same : (rest.modify f).sections = (full.modify f).sections.filter (·.1 != n) ∧
      (rest.modify f).defaults = (full.modify f).defaults := by
    unfold State.modify
    rw [cursect]
    cases full.cursect with
    | none => exact ⟨follows.sections, follows.defaults⟩
    | some name =>
        dsimp only
        split
        · exact ⟨follows.sections, by rw [follows.defaults]⟩
        · refine ⟨?_, follows.defaults⟩
          dsimp only
          rw [filter_modify, follows.sections]
  refine ⟨same.1, same.2, ?_, fun _ => ⟨?_, ?_, ?_⟩⟩
  · rw [restRest.2.2, fullRest.2.2]
    exact follows.failed
  · rw [modify_cursect, modify_cursect, cursect]
  · rw [restRest.1, fullRest.1, optname]
  · rw [restRest.2.1, fullRest.2.1, indent]

theorem follows_skip_modify {skip : Bool} {full rest : State} (follows : Follows n skip full rest)
    (here : full.cursect = some n) (proper : n ≠ defaultSection) (f : Options → Options) :
    Follows n true (full.modify f) rest := by
  have fullRest := modify_rest f full
  have sections : (full.modify f).sections.filter (·.1 != n) = full.sections.filter (·.1 != n) ∧
      (full.modify f).defaults = full.defaults := by
    unfold State.modify
    rw [here]
    dsimp only
    rw [if_neg proper]
    exact ⟨filter_modify_self f full.sections, rfl⟩
  refine ⟨follows.sections.trans sections.1.symm, follows.defaults.trans sections.2.symm, ?_, by simp⟩
  rw [fullRest.2.2]
  exact follows.failed

theorem openOption_same {full rest : State} (follows : Follows n false full rest) :
    rest.openOption = full.openOption := by
  obtain ⟨cursect, optname, -⟩ := follows.same rfl
  rw [State.openOption, State.openOption, cursect, optname]

theorem follows_extend {full rest : State} (follows : Follows n false full rest) (line : Str) :
    Follows n false (full.extend line) (rest.extend line) := by
  unfold State.extend
  rw [openOption_same follows]
  cases full.openOption with
  | none => exact follows
  | some name => exact follows_modify follows _

theorem follows_skip_extend {skip : Bool} {full rest : State} (follows : Follows n skip full rest)
    (here : full.cursect = some n) (proper : n ≠ defaultSection) (line : Str) :
    Follows n true (full.extend line) rest := by
  unfold State.extend
  cases full.openOption with
  | none => exact ⟨follows.sections, follows.defaults, follows.failed, by simp⟩
  | some name => exact follows_skip_modify follows here proper _

theorem extend_cursect (line : Str) (st : State) : (st.extend line).cursect = st.cursect := by
  unfold State.extend
  split
  · rfl
  · exact modify_cursect _ st

theorem follows_openSection {skip : Bool} {full rest : State} (follows : Follows n skip full rest)
    {name : Str} (other : name ≠ n) (indent : Nat) :
    Follows n false (full.openSection name indent) (rest.openSection name indent) := by
  have known : rest.sections.any (·.1 == name) = full.sections.any (·.1 == name) := by
    rw [follows.sections, List.any_filter]
    congr 1
    funext s
    by_cases same : s.1 = name
    · simp [same, other]
    · simp [same]
  refine ⟨?_, follows.defaults, follows.failed, fun _ => ⟨rfl, rfl, rfl⟩⟩
  simp only [State.openSection, known]
  split
  · exact follows.sections
  · rw [List.filter_append, follows.sections]
    simp [other]

theorem follows_skip_openSection {skip : Bool} {full rest : State}
    (follows : Follows n skip full rest) (indent : Nat) :
    Follows n true (full.openSection n indent) rest := by
  refine ⟨?_, follows.defaults, follows.failed, by simp⟩
  simp only [State.openSection]
  split
  · exact follows.sections
  · rw [List.filter_append, follows.sections]
    simp

theorem readOption_cursect (indent : Nat) (text : Str) (st : State) :
    (readOption db indent text st).cursect = st.cursect := by
  unfold readOption
  dsimp only
  split
  · rfl
  · exact modify_cursect _ _

theorem follows_readOption {full rest : State} (follows : Follows n false full rest) (indent : Nat)
    (text : Str) : Follows n false (readOption db indent text full) (readOption db indent text rest) := by
  obtain ⟨cursect, optname, -⟩ := follows.same rfl
  have moved : Follows n false { full with indentLevel := indent } { rest with indentLevel := indent } :=
    ⟨follows.sections, follows.defaults, follows.failed, fun _ => ⟨cursect, optname, rfl⟩⟩
  unfold readOption
  dsimp only
  split
  next => exact ⟨moved.sections, moved.defaults, fun _ => rfl, fun _ => ⟨cursect, optname, rfl⟩⟩
  next name value _ =>
    have set := follows_modify moved fun options => setOption options (db.lower name) [value]
    obtain ⟨current, -, level⟩ := set.same rfl
    refine ⟨set.sections, set.defaults, ?_, fun _ => ⟨current, rfl, level⟩⟩
    dsimp only
    rw [Bool.or_eq_true, Bool.or_eq_true]
    exact Or.imp_left follows.failed

theorem follows_skip_readOption {skip : Bool} {full rest : State}
    (follows : Follows n skip full rest) (here : full.cursect = some n) (proper : n ≠ defaultSection)
    (indent : Nat) (text : Str) : Follows n true (readOption db indent text full) rest := by
  have moved : Follows n true { full with indentLevel := indent } rest :=
    ⟨follows.sections, follows.defaults, follows.failed, by simp⟩
  unfold readOption
  dsimp only
  split
  next => exact ⟨moved.sections, moved.defaults, fun _ => rfl, by simp⟩
  next name value _ =>
    have set := follows_skip_modify moved here proper
      fun options => setOption options (db.lower name) [value]
    refine ⟨set.sections, set.defaults, ?_, by simp⟩
    intro failed
    simp [follows.failed failed]

theorem follows_readLine {full rest full' : State} {line : Str} (follows : Follows n false full rest)
    (read : readLine db full line = some full') (outside : full'.cursect ≠ some n) :
    ∃ rest', readLine db rest line = some rest' ∧ Follows n false full' rest' := by
  obtain ⟨cursect, optname, indent⟩ := follows.same rfl
  have kinds : lineKind rest line = lineKind full line := by
    have more : continues rest line = continues full line := by
      rw [continues, continues, openOption_same follows, indent]
    rw [lineKind, lineKind, more, cursect]
  unfold readLine at read ⊢
  rw [kinds]
  cases kind : lineKind full line <;> rw [kind] at read <;> cases read
  case comment => exact ⟨rest, rfl, follows⟩
  case blank => exact ⟨_, rfl, follows_extend follows _⟩
  case continuation => exact ⟨_, rfl, follows_extend follows _⟩
  case header name =>
    have other : name ≠ n := fun same => outside (congrArg some same)
    exact ⟨_, rfl, follows_openSection follows other _⟩
  case option => exact ⟨_, rfl, follows_readOption follows _ _⟩

theorem follows_skip {skip : Bool} {full rest full' : State} {line : Str}
    (follows : Follows n skip full rest) (read : readLine db full line = some full')
    (inside : full'.cursect = some n) (proper : n ≠ defaultSection) :
    Follows n true full' rest := by
  unfold readLine at read
  cases kind : lineKind full line <;> rw [kind] at read <;> cases read
  case comment => exact ⟨follows.sections, follows.defaults, follows.failed, by simp⟩
  case blank => exact follows_skip_extend follows (by rwa [extend_cursect] at inside) proper _
  case continuation => exact follows_skip_extend follows (by rwa [extend_cursect] at inside) proper _
  case header name =>
    cases inside
    exact follows_skip_openSection follows _
  case option =>
    exact follows_skip_readOption follows (by rwa [readOption_cursect] at inside) proper _ _

theorem lineKind_return {st st' : State} {line : Str} (read : readLine db st line = some st')
    (before : st.cursect = some n) (after : st'.cursect ≠ some n) :
    ∃ name, lineKind st line = .header name ∧ name ≠ n := by
  unfold readLine at read
  cases kind : lineKind st line <;> rw [kind] at read <;> cases read
  case comment => exact absurd before after
  case blank => exact absurd before (by rwa [extend_cursect] at after)
  case continuation => exact absurd before (by rwa [extend_cursect] at after)
  case header name => exact ⟨name, rfl, fun same => after (congrArg some same)⟩
  case option => exact absurd before (by rwa [readOption_cursect] at after)

theorem lineKind_header {st rest : State} {line name : Str} (header : lineKind st line = .header name)
    (level : continues rest line = false) : lineKind rest line = .header name := by
  unfold lineKind at header ⊢
  rw [level]
  split at header
  next => cases header
  next plain =>
    split at header
    next => cases header
    next filled =>
      split at header
      next => cases header
      next =>
        rw [if_neg plain, if_neg filled, if_neg Bool.false_ne_true]
        split at header
        next =>
          cases header
          rfl
        next => split at header <;> cases header

theorem follows_return {full rest full' : State} {line : Str} (follows : Follows n true full rest)
    (read : readLine db full line = some full') (before : full.cursect = some n)
    (after : full'.cursect ≠ some n) (level : continues rest line = false) :
    ∃ rest', readLine db rest line = some rest' ∧ Follows n false full' rest' := by
  obtain ⟨name, kind, other⟩ := lineKind_return read before after
  rw [readLine, kind] at read
  cases read
  refine ⟨rest.openSection name (indentOf line), ?_, follows_openSection follows other _⟩
  rw [readLine, lineKind_header kind level]

theorem rawValue_follows {skip : Bool} {full rest : State} (follows : Follows n skip full rest)
    {name : Str} (other : name ≠ n) : rawValue rest name = rawValue full name := by
  have lookup : rest.sections.lookup name = full.sections.lookup name := by
    rw [follows.sections]
    induction full.sections with
    | nil => rfl
    | cons s sections ih =>
        by_cases same : s.1 = n
        · have different : (name == s.1) = false := by simpa [same] using other
          rw [List.filter_cons, if_neg (by simp [same]), ih, List.lookup_cons, different]
        · rw [List.filter_cons, if_pos (by simp [same]), List.lookup_cons, List.lookup_cons, ih]
  funext option
  rw [rawValue, rawValue, lookup, follows.defaults]

end Without

section Default

variable {db : CharData}

def NoDefault (st : State) : Prop := ∀ s ∈ st.sections, s.1 ≠ defaultSection

theorem noDefault_modify {st : State} (none : NoDefault st) (f : Options → Options) :
    NoDefault (st.modify f) := by
  unfold State.modify
  split
  · exact none
  · split
    · exact none
    · intro s member
      obtain ⟨t, source, rfl⟩ := List.mem_map.mp member
      split
      · exact none t source
      · exact none t source

theorem noDefault_readLine {st st' : State} {line : Str} (none : NoDefault st)
    (read : readLine db st line = some st') : NoDefault st' := by
  have extended (text : Str) : NoDefault (st.extend text) := by
    unfold State.extend
    split
    · exact none
    · exact noDefault_modify none _
  unfold readLine at read
  cases kind : lineKind st line <;> rw [kind] at read <;> cases read
  case comment => exact none
  case blank => exact extended []
  case continuation => exact extended (strip line)
  case header name =>
    intro s member
    simp only [State.openSection] at member
    split at member
    next => exact none s member
    next fresh =>
      rcases List.mem_append.mp member with old | new
      · exact none s old
      · rw [List.mem_singleton.mp new]
        simp only [Bool.or_eq_true, not_or, beq_iff_eq] at fresh
        exact fresh.2
  case option =>
    unfold readOption
    dsimp only
    split
    · exact none
    · have moved : NoDefault { st with indentLevel := indentOf line } := none
      exact noDefault_modify moved _

theorem noDefault_readLines {st final : State} {lines : List Str} (none : NoDefault st)
    (read : readLines db st lines = some final) : NoDefault final := by
  induction lines generalizing st with
  | nil =>
      cases read
      exact none
  | cons line lines ih =>
      obtain ⟨next, first, rest⟩ := Option.bind_eq_some_iff.mp read
      exact ih (noDefault_readLine none first) rest

end Default

end SmolNas.Py.ConfigParser
