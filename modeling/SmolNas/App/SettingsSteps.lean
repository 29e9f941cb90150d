import SmolNas.App.SettingsValues
import SmolNas.Py.ConfigPair

/-! The settings update beside the parser: `update_samba_global_conf` finds the lines of
`[global]` with its own scan, and the parser reads the file before and after. -/

namespace SmolNas.App

open Py Py.ConfigParser

section Lines

variable {db : CharData} {newConfig : List (Str × Str)}

def newValue (newConfig : List (Str × Str)) (key : Str) : Option Str :=
  if keysToUpdate.contains key then newConfig.lookup key else none

theorem newValue_spec {key value : Str} (given : newValue newConfig key = some value) :
    key ∈ keysToUpdate ∧ newConfig.lookup key = some value := by
  unfold newValue at given
  split at given
  next known => exact ⟨List.contains_iff_mem.mp known, given⟩
  next => cases given

theorem keysToUpdate_written : ∀ key ∈ keysToUpdate, isWrittenKey key = true := by decide

theorem replacement_value {scan : Bool} {line written : Str}
    (replaced : replacement newConfig scan line = some written) :
    '=' ∈ line ∧ ∃ value, newValue newConfig (settingKey line) = some value ∧
      written = settingLine (settingKey line) value := by
  unfold replacement at replaced
  split at replaced
  next => cases replaced
  next =>
    split at replaced
    next assignment =>
      split at replaced
      next known =>
        rcases Option.map_eq_some_iff.mp replaced with ⟨value, given, whole⟩
        simp only [Bool.and_eq_true, List.contains_iff_mem] at assignment
        refine ⟨assignment.1.2, value, ?_, whole.symm⟩
        rw [newValue, if_pos known, given]
      next => cases replaced
    next => cases replaced

theorem strip_setting {line : Str} (assignment : '=' ∈ line)
    (known : settingKey line ∈ keysToUpdate) :
    ∃ rest, strip line = lstrip (line.takeWhile (· != '=')) ++ '=' :: rest := by
  have some : line.dropWhile (· != '=') ≠ [] := by
    rw [Ne, List.dropWhile_eq_nil_iff]
    intro all
    exact absurd (all '=' assignment) (by decide)
  rcases List.exists_cons_of_ne_nil some with ⟨c, back, tail⟩
  have first : c = '=' := by
    have stops := List.head?_dropWhile_not (· != '=') line
    rw [tail] at stops
    simpa using stops
  rw [first] at tail
  have whole : line = line.takeWhile (· != '=') ++ '=' :: back := by
    rw [← tail, List.takeWhile_append_dropWhile]
  have front : lstrip (line.takeWhile (· != '=')) ≠ [] := by
    intro empty
    have key : settingKey line = [] := by
      rw [settingKey, strip, empty]
      rfl
    have table : [] ∉ keysToUpdate := by decide
    exact table (key ▸ known)
  refine ⟨rstrip back, ?_⟩
  calc
    strip line = rstrip (lstrip (line.takeWhile (· != '=') ++ '=' :: back)) := by
      rw [← whole]
      rfl
    _ = lstrip (line.takeWhile (· != '=')) ++ '=' :: rstrip back := by
      rw [lstrip_append front, rstrip_append (by decide)]

theorem optionParts_setting {line : Str} (assignment : '=' ∈ line)
    (known : settingKey line ∈ keysToUpdate) :
    ∃ value, optionParts (strip line) = some (settingKey line, value) := by
  rcases strip_setting assignment known with ⟨rest, text⟩
  have plain : ∀ c ∈ lstrip (line.takeWhile (· != '=')), (!isDelimiter c) = true := by
    intro c member
    have inside := (List.dropWhile_sublist isSpace).subset member
    have equals : c ≠ '=' := by simpa using List.mem_takeWhile_imp inside
    have colon : c ≠ ':' := by
      intro same
      rw [same] at inside
      exact writtenKey_other (keysToUpdate_written _ known) (by decide)
        ((mem_strip (by decide) _).mpr inside)
    simp [isDelimiter, equals, colon]
  refine ⟨strip rest, ?_⟩
  rw [optionParts, text, List.dropWhile_append_of_pos plain, List.takeWhile_append_of_pos plain,
    List.dropWhile_cons_of_neg (by decide), List.takeWhile_cons_of_neg (by decide),
    List.append_nil]
  rfl

theorem readLine_setting {line : Str} (assignment : '=' ∈ line)
    (known : settingKey line ∈ keysToUpdate) {st : State} (inside : st.cursect ≠ none)
    (level : continues st line = false) :
    ∃ old, readLine db st line =
      some { st.assign (settingKey line) old with indentLevel := indentOf line } := by
  rcases optionParts_setting assignment known with ⟨old, parts⟩
  rcases strip_setting assignment known with ⟨rest, text⟩
  have written := keysToUpdate_written _ known
  rcases writtenKey_cons written with ⟨c, tail, whole, plain⟩
  have first : (strip line).head? = some c := by
    have front : (lstrip (line.takeWhile (· != '='))).head? = some c := by
      rw [← strip_head?, ← settingKey, whole]
      rfl
    rw [text, List.head?_append, front]
    rfl
  exact ⟨old, readLine_option first plain (by simp [whole]) parts (lower_writtenKey written) inside
    level⟩

end Lines

section Steps

variable {db : CharData} {newConfig : List (Str × Str)}

/-- The parser takes a line that the scan replaces for an option of `[global]`, and the line
that is written in its place as well. -/
def takesOver (st : State) (last : Bool) (line : Str) : Bool :=
  st.cursect == some globalSection && !continues st line &&
    (st.openOption.isNone || last || 3 ≤ st.indentLevel)

/-- The keys whose last line in `[global]`, as the parser reads the file, is one that the scan
replaces. There is no result where the scan and the parser are out of step: where a line that
is replaced is no option line of `[global]`, and where the lines after it belong to it. -/
def inStep (db : CharData) (newConfig : List (Str × Str)) :
    State → Bool → Bool → List Str → List Str → Option (List Str)
  | _, _, _, fresh, [] => some fresh
  | st, scan, last, fresh, line :: lines =>
      let scan := entersGlobal scan line
      if (replacement newConfig scan line).isSome then
        if takesOver st last line then
          (readLine db st line).bind fun next =>
            inStep db newConfig next scan true (settingKey line :: fresh) lines
        else none
      else if standsApart st last line then
        match readLine db st line with
        | none => some fresh
        | some next =>
            inStep db newConfig next scan (lastAfter last line)
              (freshAfter db globalSection st fresh line) lines
      else none

def PlainTexts (newConfig : List (Str × Str)) : Prop :=
  ∀ key value, newConfig.lookup key = some value →
    (∀ c ∈ value, isNewline c = false) ∧ '%' ∉ value

theorem lineAfter_replaced (plain : PlainTexts newConfig) {scan : Bool} {line value : Str}
    (replaced : replacement newConfig scan line = some (settingLine (settingKey line) value))
    (given : newValue newConfig (settingKey line) = some value) :
    lineAfter newConfig scan line = [field (settingKey line) value] := by
  rcases newValue_spec given with ⟨known, entry⟩
  rw [lineAfter, replaced]
  exact texts_settingLine_plain known (plain _ _ entry).1

theorem globalSection_proper : globalSection ≠ defaultSection := by decide

/-- Both readers through the file. The induction is on the lines; a step is the lemma of the
pair for a line that is kept or for one that is written anew. -/
theorem pair_linesAfter (plain : PlainTexts newConfig) (lines : List Str) {st st' : State}
    {scan last : Bool} {fresh final : List Str}
    (pair : Pair globalSection (newValue newConfig) fresh last st st')
    (steps : inStep db newConfig st scan last fresh lines = some final) :
    (readLines db st lines = none ∧
        readLines db st' (linesAfter newConfig scan lines) = none) ∨
      ∃ last' next next', readLines db st lines = some next ∧
        readLines db st' (linesAfter newConfig scan lines) = some next' ∧
        Pair globalSection (newValue newConfig) final last' next next' := by
  induction lines generalizing st st' scan last fresh with
  | nil =>
      cases steps
      exact .inr ⟨last, st, st', rfl, rfl, pair⟩
  | cons line lines ih =>
      rw [inStep] at steps
      rw [linesAfter, readLines]
      cases replaced : replacement newConfig (entersGlobal scan line) line with
      | some written =>
          rw [replaced, Option.isSome_some, if_pos rfl] at steps
          rcases replacement_value replaced with ⟨assignment, value, given, whole⟩
          rw [whole] at replaced
          have known := (newValue_spec given).1
          have written' := keysToUpdate_written _ known
          split at steps
          next taken =>
            simp only [takesOver, Bool.and_eq_true, beq_iff_eq, Bool.not_eq_true'] at taken
            rcases taken with ⟨⟨here, shallow⟩, level⟩
            have inside : st.cursect ≠ none := by simp [here]
            have inside' : st'.cursect ≠ none := by simp [pair.cursect, here]
            rcases @readLine_setting db line assignment known st inside shallow with ⟨old, read⟩
            rw [read, Option.bind_some] at steps
            rw [lineAfter_replaced plain replaced given, List.singleton_append, readLines, read,
              readLine_field written' value inside' (pair.continues_field written' value level),
              Option.bind_some, Option.bind_some]
            exact ih (pair.renew globalSection_proper here given old _) steps
          next => cases steps
      | none =>
          rw [replaced, Option.isSome_none, if_neg Bool.false_ne_true] at steps
          split at steps
          next calm =>
            have kept : lineAfter newConfig (entersGlobal scan line) line = [chomp line] := by
              rw [lineAfter, replaced]
            rw [kept, List.singleton_append, readLines, readLine_chomp]
            cases read : readLine db st line with
            | none =>
                left
                rw [pair.readLine_none calm read]
                exact ⟨rfl, rfl⟩
            | some next =>
                rw [read] at steps
                rcases pair.readLine globalSection_proper calm read with ⟨next', read', pair'⟩
                rw [read', Option.bind_some, Option.bind_some]
                exact ih pair' steps
          next => cases steps

theorem read_update (plain : PlainTexts newConfig) {conf : Str} {fresh : List Str}
    (steps : inStep db newConfig .empty false false [] (readlines conf) = some fresh) :
    (ConfigParser.read db conf = none ∧
        ConfigParser.read db (updateSambaGlobalConf newConfig conf) = none) ∨
      ∃ st st', ConfigParser.read db conf = some st ∧
        ConfigParser.read db (updateSambaGlobalConf newConfig conf) = some st' ∧
        Beside globalSection (newValue newConfig) fresh st st' := by
  have start : Pair globalSection (newValue newConfig) [] false State.empty State.empty := by
    refine ⟨rfl, rfl, rfl, rfl, ?_, ?_⟩
    · intro _
      exact ⟨rfl, fun _ _ => rfl, rfl, ⟨rfl, fun _ _ => rfl, by simp⟩, by simp [State.empty]⟩
    · intro _ here
      cases here
  have after : readLines db .empty (readlines (updateSambaGlobalConf newConfig conf)) =
      readLines db .empty (linesAfter newConfig false (readlines conf)) := by
    rw [← texts_updateSambaGlobalConf, ← readLines_chomp]
    rfl
  rw [ConfigParser.read, ConfigParser.read, after]
  rcases pair_linesAfter plain (readlines conf) start steps with
    ⟨none, none'⟩ | ⟨last, st, st', read, read', pair⟩
  · left
    rw [none, none']
    exact ⟨rfl, rfl⟩
  · rw [read, read', Option.filter_some, Option.filter_some, pair.failed]
    cases failed : st.failed with
    | true => exact .inl ⟨rfl, rfl⟩
    | false => exact .inr ⟨st, st', rfl, rfl, pair.beside failed⟩

end Steps

end SmolNas.App
