import SmolNas.Py.ConfigRenewed
import SmolNas.Py.ConfigWritten

/-! Two readers, of a file and of the file with some options written anew. Both stay in the
same section and at the same option; the second stands deeper after a written option. -/

namespace SmolNas.Py.ConfigParser

section Pairs

variable {db : CharData} {n : Str} {new : Str → Option Str} {fresh : List Str} {last : Bool}
  {st st' : State}

/-- Two readers beside each other. With `last` the option at which they are was written anew.
After an error nothing is said of what they have read. -/
structure Pair (n : Str) (new : Str → Option Str) (fresh : List Str) (last : Bool)
    (st st' : State) : Prop where
  cursect : st'.cursect = st.cursect
  optname : st'.optname = st.optname
  failed : st'.failed = st.failed
  level : st'.indentLevel = if last then 3 else st.indentLevel
  beside : st.failed = false → Beside n new fresh st st'
  place : st.failed = false → st.cursect = some n →
    ∀ name, st.optname = some name → (name ∈ fresh ↔ last = true)

theorem Pair.openOption (pair : Pair n new fresh last st st') : st'.openOption = st.openOption := by
  rw [State.openOption, State.openOption, pair.cursect, pair.optname]

theorem optname_of_openOption {name : Str} (opened : st.openOption = some name) :
    st.optname = some name := by
  unfold State.openOption at opened
  split at opened
  · exact (Option.filter_eq_some_iff.mp opened).1
  · cases opened

theorem Pair.extend (pair : Pair n new fresh last st st') (proper : n ≠ defaultSection)
    {line : Str} (calm : last = false ∨ line = []) :
    Pair n new fresh last (st.extend line) (st'.extend line) := by
  unfold State.extend
  rw [pair.openOption]
  cases opened : st.openOption with
  | none => exact pair
  | some name =>
      have rest := modify_rest (extendOption name line) st
      have rest' := modify_rest (extendOption name line) st'
      refine ⟨?_, ?_, ?_, ?_, ?_, ?_⟩
      · rw [modify_cursect, modify_cursect, pair.cursect]
      · rw [rest.1, rest'.1, pair.optname]
      · rw [rest.2.2, rest'.2.2, pair.failed]
      · rw [rest.2.1, rest'.2.1, pair.level]
      · intro clean
        rw [rest.2.2] at clean
        refine (pair.beside clean).modify proper pair.cursect (fun _ => ⟨rfl, rfl⟩) ?_
        intro here
        apply (pair.beside clean).own.extend
        have stale := pair.place clean here name (optname_of_openOption opened)
        rcases calm with before | blank
        · left
          intro member
          rw [stale.mp member] at before
          cases before
        · exact .inr blank
      · intro clean here other named
        rw [rest.2.2] at clean
        rw [modify_cursect] at here
        rw [rest.1] at named
        exact pair.place clean here other named

theorem Pair.openSection (pair : Pair n new fresh last st st') (proper : n ≠ defaultSection)
    (name : Str) (indent : Nat) :
    Pair n new fresh false (st.openSection name indent) (st'.openSection name indent) := by
  refine ⟨rfl, rfl, pair.failed, rfl, ?_, ?_⟩
  · intro clean
    have beside := pair.beside clean
    have same : (st'.sections.lookup name).isSome = (st.sections.lookup name).isSome := by
      by_cases own : name = n
      · rw [own]
        exact beside.present
      · rw [beside.others name own]
    have empty (at' : State) : ownOptions n (at'.openSection name indent) = ownOptions n at' := by
      rw [ownOptions, lookup_openSection]
      split
      next opened =>
        have none : at'.sections.lookup name = none :=
          Option.isNone_iff_eq_none.mp (Option.isSome_eq_false_iff.mp opened.2.2)
        rw [ownOptions, opened.1, none]
        rfl
      next => rfl
    refine ⟨beside.defaults, ?_, ?_, ?_, ?_⟩
    · intro other away
      rw [lookup_openSection, lookup_openSection, same, beside.others other away]
    · rw [lookup_openSection, lookup_openSection, same]
      split
      · rfl
      · exact beside.present
    · rw [empty, empty]
      exact beside.own
    · intro current
      have own : name = n := Option.some.inj current
      rw [lookup_openSection]
      cases known : (st.sections.lookup name).isSome with
      | false =>
          rw [if_pos ⟨own.symm, by rw [own]; exact proper, rfl⟩]
          rfl
      | true =>
          rw [if_neg (by simp), ← own]
          exact known
  · intro _ _ other named
    cases named

/-- The keys with new values after an option line that both read. -/
def freshOption (db : CharData) (n : Str) (st : State) (fresh : List Str) (text : Str) : List Str :=
  match optionParts text with
  | none => fresh
  | some (name, _) => if st.cursect = some n then fresh.filter (· != db.lower name) else fresh

theorem Pair.readOption (pair : Pair n new fresh last st st') (proper : n ≠ defaultSection)
    (indent : Nat) (text : Str) :
    Pair n new (freshOption db n st fresh text) false (readOption db indent text st)
      (readOption db indent text st') := by
  unfold ConfigParser.readOption freshOption
  dsimp only
  cases parts : optionParts text with
  | none =>
      refine ⟨pair.cursect, pair.optname, rfl, rfl, ?_, ?_⟩
      · intro clean
        cases clean
      · intro clean
        cases clean
  | some found =>
      rcases found with ⟨name, value⟩
      dsimp only
      refine ⟨?_, rfl, ?_, ?_, ?_, ?_⟩
      · dsimp only
        rw [modify_cursect, modify_cursect]
        exact pair.cursect
      · dsimp only
        rw [pair.failed]
      · rw [if_neg Bool.false_ne_true, (modify_rest _ _).2.1, (modify_rest _ _).2.1]
      · intro clean
        have before : st.failed = false := (Bool.or_eq_false_iff.mp clean).1
        have beside := pair.beside before
        have moved : Beside n new fresh { st with indentLevel := indent }
            { st' with indentLevel := indent } :=
          ⟨beside.defaults, beside.others, beside.present, beside.own, beside.inside⟩
        have set : Beside n new
            (if st.cursect = some n then fresh.filter (· != db.lower name) else fresh)
            (State.modify (fun options => setOption options (db.lower name) [value])
              { st with indentLevel := indent })
            (State.modify (fun options => setOption options (db.lower name) [value])
              { st' with indentLevel := indent }) := by
          refine moved.modify proper pair.cursect ?_ ?_
          · intro away
            exact ⟨rfl, if_neg away⟩
          · intro here
            rw [if_pos here]
            exact moved.own.set (db.lower name) [value]
        exact ⟨set.defaults, set.others, set.present, set.own, set.inside⟩
      · intro clean here other named
        dsimp only at here
        rw [modify_cursect] at here
        cases named
        rw [if_pos here, List.mem_filter]
        simp

theorem Pair.renew (pair : Pair n new fresh last st st') (proper : n ≠ defaultSection)
    (here : st.cursect = some n) {key value : Str} (given : new key = some value) (old : Str)
    (indent : Nat) :
    Pair n new (key :: fresh) true { st.assign key old with indentLevel := indent }
      (st'.assign key (strip value)) := by
  have place := assign_place key old st
  have place' := assign_place key (strip value) st'
  refine ⟨?_, rfl, ?_, rfl, ?_, ?_⟩
  · exact place'.1.trans (pair.cursect.trans place.1.symm)
  · exact place'.2.trans (pair.failed.trans place.2.symm)
  · intro clean
    have before : st.failed = false := place.2.symm.trans clean
    have set : Beside n new (key :: fresh) (st.modify fun options => setOption options key [old])
        (st'.modify fun options => setOption options key [strip value]) := by
      refine (pair.beside before).modify proper pair.cursect ?_ ?_
      · intro away
        exact absurd here away
      · intro _
        exact (pair.beside before).own.renew given [old]
    exact ⟨set.defaults, set.others, set.present, set.own, set.inside⟩
  · intro _ _ other named
    cases named
    simp

/-- After an option that was written anew, the next line that is not skipped neither continues
the value that the option had nor the one it has now. -/
def standsApart (st : State) (last : Bool) (line : Str) : Bool :=
  !last || isComment line || strip line == [] || (!continues st line && indentOf line ≤ 3)

def lastAfter (last : Bool) (line : Str) : Bool := last && (isComment line || strip line == [])

def freshAfter (db : CharData) (n : Str) (st : State) (fresh : List Str) (line : Str) : List Str :=
  match lineKind st line with
  | .option => freshOption db n st fresh (strip line)
  | _ => fresh

theorem Pair.lineKind (pair : Pair n new fresh last st st') {line : Str}
    (calm : standsApart st last line = true) :
    ConfigParser.lineKind st' line = ConfigParser.lineKind st line := by
  unfold ConfigParser.lineKind
  rw [pair.cursect]
  by_cases comment : isComment line = true
  · rw [if_pos comment, if_pos comment]
  · rw [if_neg comment, if_neg comment]
    by_cases blank : strip line = []
    · rw [if_pos blank, if_pos blank]
    · have same : continues st' line = continues st line := by
        simp only [standsApart, Bool.or_eq_true, Bool.not_eq_true', beq_iff_eq, Bool.and_eq_true,
          decide_eq_true_eq] at calm
        rcases calm with ((before | given) | empty) | ⟨old, level⟩
        · rw [continues, continues, pair.openOption, pair.level, before, if_neg Bool.false_ne_true]
        · exact absurd given comment
        · exact absurd empty blank
        · rw [old]
          cases lately : last with
          | false =>
              have same := pair.level
              rw [lately, if_neg Bool.false_ne_true] at same
              rw [← old, continues, continues, pair.openOption, same]
          | true =>
              have same := pair.level
              rw [lately, if_pos rfl] at same
              rw [continues, same, decide_eq_false (by omega), Bool.and_false]
      rw [same]

theorem lineKind_skipped {line : Str} (skipped : (isComment line || strip line == []) = true)
    (st : State) : lineKind st line = .comment ∨ lineKind st line = .blank := by
  rw [Bool.or_eq_true, beq_iff_eq] at skipped
  rcases skipped with comment | blank
  · left
    rw [lineKind, if_pos comment]
  · exact .inr (lineKind_blank blank st)

theorem skipped_of_lineKind {line : Str}
    (kind : lineKind st line = .comment ∨ lineKind st line = .blank) :
    (isComment line || strip line == []) = true := by
  rw [Bool.or_eq_true, beq_iff_eq]
  by_contra other
  rw [not_or] at other
  unfold lineKind at kind
  rw [if_neg other.1, if_neg other.2] at kind
  split at kind
  · rcases kind with kind | kind <;> cases kind
  · split at kind
    · rcases kind with kind | kind <;> cases kind
    · split at kind
      · rcases kind with kind | kind <;> cases kind
      · rcases kind with kind | kind <;> cases kind

theorem continues_of_lineKind {line : Str} (kind : lineKind st line = .continuation) :
    isComment line = false ∧ strip line ≠ [] ∧ continues st line = true := by
  unfold lineKind at kind
  split at kind
  next => cases kind
  next plain =>
    split at kind
    next => cases kind
    next filled =>
      split at kind
      next more => exact ⟨Bool.not_eq_true _ ▸ plain, filled, more⟩
      next =>
        split at kind
        · cases kind
        · split at kind <;> cases kind

theorem Pair.readLine (pair : Pair n new fresh last st st') (proper : n ≠ defaultSection)
    {line : Str} (calm : standsApart st last line = true) {next : State}
    (read : ConfigParser.readLine db st line = some next) :
    ∃ next', ConfigParser.readLine db st' line = some next' ∧
      Pair n new (freshAfter db n st fresh line) (lastAfter last line) next next' := by
  have moved (away : ¬(ConfigParser.lineKind st line = .comment ∨
      ConfigParser.lineKind st line = .blank)) : lastAfter last line = false := by
    rw [lastAfter, Bool.and_eq_false_iff]
    right
    rw [← Bool.not_eq_true]
    exact fun skipped => away (lineKind_skipped skipped st)
  have stays (here : ConfigParser.lineKind st line = .comment ∨
      ConfigParser.lineKind st line = .blank) : lastAfter last line = last := by
    rw [lastAfter, skipped_of_lineKind here, Bool.and_true]
  unfold ConfigParser.readLine at read ⊢
  rw [pair.lineKind calm]
  unfold freshAfter
  cases kind : ConfigParser.lineKind st line <;> rw [kind] at read moved stays <;> cases read
  case comment =>
    rw [stays (.inl rfl)]
    exact ⟨st', rfl, pair⟩
  case blank =>
    rw [stays (.inr rfl)]
    exact ⟨_, rfl, pair.extend proper (.inr rfl)⟩
  case continuation =>
    rcases continues_of_lineKind kind with ⟨plain, filled, more⟩
    have before : last = false := by
      simpa [standsApart, plain, filled, more] using calm
    rw [moved (by simp), ← before]
    exact ⟨_, rfl, pair.extend proper (.inl before)⟩
  case header name =>
    rw [moved (by simp)]
    exact ⟨_, rfl, pair.openSection proper name (indentOf line)⟩
  case option =>
    rw [moved (by simp)]
    exact ⟨_, rfl, pair.readOption proper (indentOf line) (strip line)⟩

theorem Pair.readLine_none (pair : Pair n new fresh last st st') {line : Str}
    (calm : standsApart st last line = true) (refused : ConfigParser.readLine db st line = none) :
    ConfigParser.readLine db st' line = none := by
  unfold ConfigParser.readLine at refused ⊢
  rw [pair.lineKind calm]
  cases kind : ConfigParser.lineKind st line with
  | missingHeader => rfl
  | _ =>
      rw [kind] at refused
      cases refused

theorem Pair.continues_field (pair : Pair n new fresh last st st') {key : Str}
    (written : isWrittenKey key = true) (value : Str)
    (level : (st.openOption.isNone || last || 3 ≤ st.indentLevel) = true) :
    continues st' (field key value) = false := by
  rw [continues, indentOf_field written, pair.openOption, pair.level]
  simp only [Bool.or_eq_true, decide_eq_true_eq] at level
  rcases level with (closed | lately) | deep
  · rw [Option.isNone_iff_eq_none.mp closed]
    rfl
  · rw [lately, if_pos rfl, decide_eq_false (Nat.lt_irrefl 3), Bool.and_false]
  · split
    · rw [decide_eq_false (Nat.lt_irrefl 3), Bool.and_false]
    · rw [decide_eq_false (by omega), Bool.and_false]

end Pairs

end SmolNas.Py.ConfigParser
