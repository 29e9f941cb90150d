import SmolNas.Py.ConfigReads

/-! What the parser makes of option lines that a program has written. -/

namespace SmolNas.Py.ConfigParser

variable {db : CharData}

section Written

/-- An option as the application writes it. -/
def field (key value : Str) : Str := "   ".toList ++ key ++ " = ".toList ++ value

def isWrittenKey (key : Str) : Bool :=
  key.all (fun c => ('a' ≤ c && c ≤ 'z') || c == ' ') && key.head?.any (!isSpace ·) &&
    key.getLast?.any (!isSpace ·)

variable {key : Str}

theorem writtenKey_chars (written : isWrittenKey key = true) :
    ∀ c ∈ key, (97 ≤ c.toNat ∧ c.toNat ≤ 122) ∨ c = ' ' := by
  simp only [isWrittenKey, Bool.and_eq_true, List.all_eq_true] at written
  intro c member
  have range := written.1.1 c member
  simp only [Bool.or_eq_true, Bool.and_eq_true, decide_eq_true_eq, beq_iff_eq] at range
  rcases range with letter | blank
  · exact .inl ⟨letter.1, letter.2⟩
  · exact .inr blank

theorem lower_writtenKey (written : isWrittenKey key = true) : db.lower key = key := by
  apply db.lower_fixed
  intro c member
  rcases writtenKey_chars written c member with letter | blank
  · exact db.fixed_of_ascii (by omega) (by omega)
  · exact db.fixed_of_space (by rw [blank]; decide)

theorem writtenKey_other (written : isWrittenKey key = true) {d : Char}
    (other : ¬(97 ≤ d.toNat ∧ d.toNat ≤ 122) ∧ d ≠ ' ') : d ∉ key := by
  intro member
  rcases writtenKey_chars written d member with letter | blank
  · exact other.1 letter
  · exact other.2 blank

theorem writtenKey_cons (written : isWrittenKey key = true) :
    ∃ c rest, key = c :: rest ∧ c ≠ '#' ∧ c ≠ ';' ∧ c ≠ '[' := by
  cases key with
  | nil => cases written
  | cons c rest =>
      have other (d : Char) (away : ¬(97 ≤ d.toNat ∧ d.toNat ≤ 122) ∧ d ≠ ' ') : c ≠ d := by
        intro equal
        exact writtenKey_other written away (by rw [equal]; simp)
      exact ⟨c, rest, rfl, other '#' (by decide), other ';' (by decide), other '[' (by decide)⟩

theorem lstrip_writtenKey (written : isWrittenKey key = true) (rest : Str) :
    lstrip (key ++ rest) = key ++ rest := by
  simp only [isWrittenKey, Bool.and_eq_true] at written
  cases key with
  | nil => cases written.1.2
  | cons c key =>
      have solid : isSpace c = false := by simpa using written.1.2
      rw [lstrip, List.cons_append, List.dropWhile_cons_of_neg (by simp [solid])]

theorem rstrip_writtenKey (written : isWrittenKey key = true) : rstrip (key ++ [' ']) = key := by
  simp only [isWrittenKey, Bool.and_eq_true] at written
  rcases (Option.any_eq_true _ _).mp written.2 with ⟨c, last, solid⟩
  rcases List.getLast?_eq_some_iff.mp last with ⟨front, whole⟩
  rw [rstrip, List.rdropWhile_concat_pos _ _ _ (by decide), whole,
    List.rdropWhile_concat_neg _ _ _ (by simpa using solid)]

theorem strip_field (written : isWrittenKey key = true) (value : Str) :
    ∃ t, strip (field key value) = key ++ ' ' :: '=' :: t ∧ strip t = strip value := by
  have lead : lstrip (field key value) = lstrip (key ++ (" = ".toList ++ value)) := by
    rw [field, List.append_assoc, List.append_assoc]
    rfl
  have solid : isSpace '=' = false := by decide
  refine ⟨rstrip (' ' :: value), ?_, strip_rstrip (' ' :: value)⟩
  calc
    strip (field key value) = rstrip (key ++ (" = ".toList ++ value)) := by
      rw [strip, lead, lstrip_writtenKey written]
    _ = rstrip ((key ++ [' ']) ++ '=' :: ' ' :: value) := by simp
    _ = key ++ ' ' :: '=' :: rstrip (' ' :: value) := by
      rw [rstrip_append solid, List.append_assoc, List.singleton_append]

theorem indentOf_field (written : isWrittenKey key = true) (value : Str) :
    indentOf (field key value) = 3 := by
  have solid : (key ++ (" = ".toList ++ value)).takeWhile isSpace = [] := by
    have whole := List.takeWhile_append_dropWhile (p := isSpace) (l := key ++ (" = ".toList ++ value))
    have kept : (key ++ (" = ".toList ++ value)).dropWhile isSpace =
        key ++ (" = ".toList ++ value) := lstrip_writtenKey written _
    rw [kept] at whole
    exact List.append_left_eq_self.mp whole
  rw [indentOf, field, List.append_assoc, List.append_assoc]
  change (' ' :: ' ' :: ' ' :: (key ++ (" = ".toList ++ value)).takeWhile isSpace).length = 3
  rw [solid]
  rfl

theorem optionParts_field (written : isWrittenKey key = true) (t : Str) :
    optionParts (key ++ ' ' :: '=' :: t) = some (key, strip t) := by
  have plain : ∀ c ∈ key ++ [' '], (!isDelimiter c) = true := by
    intro c member
    have other : c ≠ '=' ∧ c ≠ ':' := by
      rcases List.mem_append.mp member with inside | blank
      · constructor
        · intro same
          exact writtenKey_other written (by decide) (same ▸ inside)
        · intro same
          exact writtenKey_other written (by decide) (same ▸ inside)
      · rw [List.mem_singleton.mp blank]
        decide
    simp [isDelimiter, other]
  have split : key ++ ' ' :: '=' :: t = (key ++ [' ']) ++ '=' :: t := by simp
  rw [optionParts, split, List.dropWhile_append_of_pos plain, List.takeWhile_append_of_pos plain,
    List.dropWhile_cons_of_neg (by decide), List.takeWhile_cons_of_neg (by decide),
    List.append_nil, rstrip_writtenKey written]

/-- Sets an option of the current section, and goes on after it. -/
def State.assign (key value : Str) (st : State) : State :=
  { st.modify fun options => setOption options key [value] with
    optname := some key
    indentLevel := 3 }

theorem readOption_assign (some : key ≠ []) {text value : Str}
    (parts : optionParts text = .some (key, value)) (lower : db.lower key = key) (indent : Nat)
    (st : State) :
    readOption db indent text st = { st.assign key value with indentLevel := indent } := by
  have named : (key == []) = false := beq_eq_false_iff_ne.mpr some
  unfold readOption State.assign
  dsimp only
  rw [parts]
  dsimp only
  rw [lower, named, Bool.or_false]
  rcases st with ⟨sections, defaults, cursect, optname, indentLevel, failed⟩
  unfold State.modify
  cases cursect with
  | none => rfl
  | some name =>
      dsimp only
      split <;> rfl

theorem readLine_option {line : Str} {c : Char} (first : (strip line).head? = some c)
    (plain : c ≠ '#' ∧ c ≠ ';' ∧ c ≠ '[') (named : key ≠ []) {value : Str}
    (parts : optionParts (strip line) = some (key, value)) (lower : db.lower key = key) {st : State}
    (inside : st.cursect ≠ none) (level : continues st line = false) :
    readLine db st line = some { st.assign key value with indentLevel := indentOf line } := by
  rcases List.head?_eq_some_iff.mp first with ⟨rest, text⟩
  have comment : isComment line = false := by
    rw [isComment, text]
    simp [startswith, List.isPrefixOf, Ne.symm plain.1, Ne.symm plain.2.1]
  have filled : strip line ≠ [] := by
    rw [text]
    simp
  have header : sectionHeader (strip line) = none := by
    rw [text]
    unfold sectionHeader
    split
    next same => exact absurd (List.cons.inj same).1 plain.2.2
    next => rfl
  have kind : lineKind st line = .option := by
    rw [lineKind, comment, if_neg Bool.false_ne_true, if_neg filled, level,
      if_neg Bool.false_ne_true, header]
    dsimp only
    rw [if_neg inside]
  rw [readLine, kind]
  dsimp only
  rw [readOption_assign named parts lower]

theorem readLine_field (written : isWrittenKey key = true) (value : Str) {st : State}
    (inside : st.cursect ≠ none) (level : continues st (field key value) = false) :
    readLine db st (field key value) = some (st.assign key (strip value)) := by
  rcases strip_field written value with ⟨t, text, same⟩
  rcases writtenKey_cons written with ⟨c, rest, whole, plain⟩
  have parts : optionParts (strip (field key value)) = .some (key, strip value) := by
    rw [text, optionParts_field written, same]
  have first : (strip (field key value)).head? = .some c := by
    rw [text, whole]
    rfl
  rw [readLine_option first plain (by simp [whole]) parts (lower_writtenKey written) inside level,
    indentOf_field written]
  rfl

def setFields (fields : List (Str × Str)) (options : Options) : Options :=
  fields.foldl (fun options f => setOption options f.1 [strip f.2]) options

theorem lookup_setFields (fields : List (Str × Str)) (options : Options) (key : Str) :
    (setFields fields options).lookup key =
      ((fields.reverse.lookup key).map fun value => [strip value]).or (options.lookup key) := by
  induction fields generalizing options with
  | nil => rfl
  | cons f fields ih =>
      have first : setFields (f :: fields) options =
          setFields fields (setOption options f.1 [strip f.2]) := rfl
      rw [first, ih, lookup_setOption, List.reverse_cons, List.lookup_append, Option.map_or,
        Option.or_assoc, List.lookup_cons, List.lookup_nil]
      congr 1
      by_cases own : key = f.1
      · rw [if_pos own, beq_iff_eq.mpr own]
        rfl
      · rw [if_neg own, beq_eq_false_iff_ne.mpr own]
        rfl

theorem modify_id (st : State) : (st.modify fun options => options) = st := by
  rcases st with ⟨sections, defaults, cursect, optname, indentLevel, failed⟩
  unfold State.modify
  cases cursect with
  | none => rfl
  | some name =>
      have same : (sections.map fun s => if s.1 = name then (s.1, s.2) else s) = sections := by
        refine (List.map_congr_left ?_).trans (List.map_id _)
        intro s _
        split <;> rfl
      dsimp only
      rw [same]
      split <;> rfl

theorem assign_modify (key value : Str) (f : Options → Options) (st : State) :
    ((st.assign key value).modify f).sections =
        (st.modify fun options => f (setOption options key [value])).sections ∧
      ((st.assign key value).modify f).defaults =
        (st.modify fun options => f (setOption options key [value])).defaults := by
  rcases st with ⟨sections, defaults, cursect, optname, indentLevel, failed⟩
  unfold State.assign State.modify
  cases cursect with
  | none => exact ⟨rfl, rfl⟩
  | some name =>
      by_cases default' : name = defaultSection
      · simp only [if_pos default', and_self]
      · simp only [if_neg default', and_true]
        rw [List.map_map]
        apply List.map_congr_left
        intro s _
        rw [Function.comp_apply]
        by_cases same : s.1 = name
        · simp only [if_pos same]
        · simp only [if_neg same]

theorem assign_place (key value : Str) (st : State) :
    (st.assign key value).cursect = st.cursect ∧ (st.assign key value).failed = st.failed :=
  ⟨modify_cursect _ st, (modify_rest _ st).2.2⟩

theorem readLines_fields {fields : List (Str × Str)}
    (written : ∀ f ∈ fields, isWrittenKey f.1 = true) {st : State} (inside : st.cursect ≠ none)
    (level : st.openOption = none ∨ 3 ≤ st.indentLevel) :
    ∃ after, readLines db st (fields.map fun f => field f.1 f.2) = some after ∧
      after.sections = (st.modify (setFields fields)).sections ∧
      after.defaults = (st.modify (setFields fields)).defaults ∧ after.failed = st.failed := by
  induction fields generalizing st with
  | nil =>
      refine ⟨st, rfl, ?_, ?_, rfl⟩
      · exact (congrArg State.sections (modify_id st)).symm
      · exact (congrArg State.defaults (modify_id st)).symm
  | cons f fields ih =>
      have own := written f List.mem_cons_self
      have shallow : continues st (field f.1 f.2) = false := by
        rw [continues, indentOf_field own]
        rcases level with closed | deep
        · rw [closed]
          rfl
        · rw [decide_eq_false (by omega), Bool.and_false]
      have place := assign_place f.1 (strip f.2) st
      rcases ih (fun g member => written g (List.mem_cons_of_mem f member))
          (by rw [place.1]; exact inside) (.inr (Nat.le_refl 3)) with
        ⟨after, read, sections, defaults, failed⟩
      have both := assign_modify f.1 (strip f.2) (setFields fields) st
      refine ⟨after, ?_, sections.trans both.1, defaults.trans both.2, failed.trans place.2⟩
      rw [List.map_cons, readLines, readLine_field own f.2 inside shallow, Option.bind_some, read]

end Written

end SmolNas.Py.ConfigParser
