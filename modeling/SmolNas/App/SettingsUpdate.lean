import SmolNas.App.Sections

/-! What the settings update keeps of the sections of the file. -/

namespace SmolNas.App

open Py Lib

section Update

variable {newConfig : List (Str × Str)}

theorem replacement_setting {inGlobal : Bool} {line written : Str}
    (replaced : replacement newConfig inGlobal line = some written) :
    isSetting line = true ∧ ∃ key value, key ∈ keysToUpdate ∧ written = settingLine key value := by
  unfold replacement at replaced
  split at replaced
  next => cases replaced
  next =>
    split at replaced
    next assignment =>
      split at replaced
      next known =>
        obtain ⟨value, -, rfl⟩ := Option.map_eq_some_iff.mp replaced
        simp only [Bool.and_eq_true] at assignment
        refine ⟨?_, settingKey line, value, List.contains_iff_mem.mp known, rfl⟩
        rw [isSetting, assignment.1.2, assignment.2, known]
        rfl
      next => cases replaced
    next => cases replaced

theorem texts_settingLine {key : Str} (value : Str) (known : key ∈ keysToUpdate) :
    ∃ first tail, texts (settingLine key value) = first :: tail ∧ isSetting first = true := by
  have table : ∀ key ∈ keysToUpdate,
      ("   ".toList ++ key ++ " = ".toList).all (!isNewline ·) = true := by decide
  obtain ⟨first, tail, -, texts⟩ :=
    texts_lead (all_plain.mp (table key known)) (value ++ "\n".toList) (by simp)
  refine ⟨"   ".toList ++ key ++ " = ".toList ++ first, tail, ?_, ?_⟩
  · rw [settingLine, List.append_assoc _ value]
    exact texts
  · simp only [keysToUpdate, List.map_cons, List.map_nil, List.mem_cons, List.not_mem_nil,
      or_false] at known
    rcases known with rfl | rfl | rfl | rfl | rfl <;> rfl

/-- The settings line may be written: in `[global]` the further lines of the value
are blank or settings lines; elsewhere the line keeps its text. -/
def writtenKeeps (inGlobal : Bool) (text : Str) (written : List Str) : Bool :=
  (inGlobal || written.head? == some text) &&
    written.tail.all fun further => isBlankLine further || (inGlobal && isSetting further)

/-- Every line that the scan replaces may be replaced so. The first flag is that of
the scan; the second says whether the line is in `[global]`. -/
def updateKeeps (newConfig : List (Str × Str)) : Bool → Bool → List Str → Bool
  | _, _, [] => true
  | scan, inGlobal, line :: lines =>
      let scan := entersGlobal scan line
      let inGlobal := if isHeader line then isGlobalLine line else inGlobal
      ((replacement newConfig scan line).all fun written =>
          writtenKeeps inGlobal (chomp line) (texts written)) &&
        updateKeeps newConfig scan inGlobal lines

def lineAfter (newConfig : List (Str × Str)) (scan : Bool) (line : Str) : List Str :=
  match replacement newConfig scan line with
  | some written => texts written
  | none => [chomp line]

def linesAfter (newConfig : List (Str × Str)) : Bool → List Str → List Str
  | _, [] => []
  | scan, line :: lines =>
      lineAfter newConfig (entersGlobal scan line) line ++
        linesAfter newConfig (entersGlobal scan line) lines

theorem allTerminated_updateScan (scan : Bool) {lines : List Str}
    (terminated : AllTerminated lines) : AllTerminated (updateScan newConfig scan lines) := by
  induction lines generalizing scan with
  | nil => trivial
  | cons line lines ih =>
      cases lines with
      | nil => trivial
      | cons next lines =>
          refine ⟨?_, ih _ terminated.2⟩
          cases replaced : replacement newConfig (entersGlobal scan line) line with
          | none => exact terminated.1
          | some written =>
              obtain ⟨-, key, value, -, rfl⟩ := replacement_setting replaced
              exact terminated_concat _

theorem flatMap_updateScan (scan : Bool) {lines : List Str}
    (read : ∀ line ∈ lines, texts line = [chomp line]) :
    (updateScan newConfig scan lines).flatMap texts = linesAfter newConfig scan lines := by
  induction lines generalizing scan with
  | nil => rfl
  | cons line lines ih =>
      rw [updateScan, List.flatMap_cons, linesAfter, ih _ fun l member => read l (by simp [member])]
      congr 1
      unfold lineAfter
      cases replaced : replacement newConfig (entersGlobal scan line) line with
      | none => exact read line (by simp)
      | some written => rfl

theorem texts_updateSambaGlobalConf (conf : Str) :
    texts (updateSambaGlobalConf newConfig conf) =
      linesAfter newConfig false (readlines conf) := by
  have terminated : AllTerminated (updateScan newConfig false (readlines conf)) :=
    allTerminated_updateScan false (allTerminated_readlines conf)
  calc
    texts (updateSambaGlobalConf newConfig conf) =
        (updateScan newConfig false (readlines conf)).flatMap texts := texts_flatten terminated
    _ = linesAfter newConfig false (readlines conf) :=
      flatMap_updateScan false fun line member => texts_line member

def furtherLines (newConfig : List (Str × Str)) : Bool → List Str → List Str
  | _, [] => []
  | scan, line :: lines =>
      (lineAfter newConfig (entersGlobal scan line) line).tail ++
        furtherLines newConfig (entersGlobal scan line) lines

theorem lineAfter_shape (newConfig : List (Str × Str)) (scan : Bool) (line : Str) :
    ∃ first tail, lineAfter newConfig scan line = first :: tail ∧ isHeader first = isHeader line ∧
      ((replacement newConfig scan line = none ∧ first = chomp line ∧ tail = []) ∨
        (∃ written, replacement newConfig scan line = some written ∧
          texts written = first :: tail ∧ isSetting first = true ∧ isSetting line = true)) := by
  unfold lineAfter
  cases replaced : replacement newConfig scan line with
  | none => exact ⟨chomp line, [], rfl, isHeader_chomp line, .inl ⟨rfl, rfl, rfl⟩⟩
  | some written =>
      obtain ⟨setting, key, value, known, rfl⟩ := replacement_setting replaced
      obtain ⟨first, tail, texts, firstSetting⟩ := texts_settingLine value known
      refine ⟨first, tail, texts, ?_, .inr ⟨_, rfl, texts, firstSetting, setting⟩⟩
      rw [setting_not_header firstSetting, setting_not_header setting]

theorem lineAfter_header (newConfig : List (Str × Str)) (scan : Bool) {line : Str}
    (header : isHeader line = true) :
    replacement newConfig scan line = none ∧ lineAfter newConfig scan line = [chomp line] := by
  obtain ⟨first, tail, shape, -, ⟨none, rfl, rfl⟩ | ⟨written, -, -, -, setting⟩⟩ :=
    lineAfter_shape newConfig scan line
  · exact ⟨none, shape⟩
  · rw [setting_not_header setting] at header
    cases header

theorem countP_linesAfter (scan : Bool) (lines : List Str) :
    (linesAfter newConfig scan lines).countP isHeader =
      (lines.map chomp).countP isHeader + (furtherLines newConfig scan lines).countP isHeader := by
  induction lines generalizing scan with
  | nil => rfl
  | cons line lines ih =>
      obtain ⟨first, tail, shape, same, -⟩ := lineAfter_shape newConfig
        (entersGlobal scan line) line
      rw [linesAfter, furtherLines, shape, List.cons_append, List.tail_cons, List.map_cons,
        List.countP_cons, List.countP_cons, List.countP_append, List.countP_append, ih, same,
        isHeader_chomp]
      omega

theorem filter_linesAfter (scan : Bool) (lines : List Str)
    (free : ∀ further ∈ furtherLines newConfig scan lines, isHeader further = false) :
    (linesAfter newConfig scan lines).filter isHeader = (lines.map chomp).filter isHeader := by
  induction lines generalizing scan with
  | nil => rfl
  | cons line lines ih =>
      obtain ⟨first, tail, shape, same, cases⟩ := lineAfter_shape newConfig
        (entersGlobal scan line) line
      rw [furtherLines, shape, List.tail_cons] at free
      have later := ih (entersGlobal scan line) fun further member => free further (by simp [member])
      have none : tail.filter isHeader = [] := by
        rw [List.filter_eq_nil_iff]
        intro further member
        simp [free further (by simp [member])]
      rw [linesAfter, shape, List.filter_append, later, List.filter_cons, none, same,
        List.map_cons, List.filter_cons, isHeader_chomp]
      rcases cases with ⟨-, rfl, -⟩ | ⟨written, -, -, -, setting⟩
      · split <;> rfl
      · rw [setting_not_header setting]
        rfl

theorem isFixed_setting {block : Nat} {inGlobal : Bool} {text : Str}
    (setting : isSetting text = true) : (Entry.mk block inGlobal text).isFixed = !inGlobal := by
  simp [Entry.isFixed, setting_not_blank setting, setting]

theorem lineAfter_fixed (newConfig : List (Str × Str)) (block : Nat) (inGlobal scan : Bool)
    (line : Str) :
    let before := [Entry.mk block inGlobal (chomp line)].filter Entry.isFixed
    let after := ((lineAfter newConfig scan line).map (Entry.mk block inGlobal)).filter Entry.isFixed
    before.length ≤ after.length ∧
      (after = before ↔ ((replacement newConfig scan line).all fun written =>
        writtenKeeps inGlobal (chomp line) (texts written)) = true) := by
  intro before after
  obtain ⟨first, tail, shape, -, cases⟩ := lineAfter_shape newConfig scan line
  rcases cases with ⟨none, rfl, rfl⟩ | ⟨written, some, texts, firstSetting, setting⟩
  · have same : after = before := by
      simp only [after, before, shape]
      rfl
    rw [none, same]
    exact ⟨Nat.le_refl _, iff_of_true rfl rfl⟩
  · have lineSetting : isSetting (chomp line) = true := setting_chomp setting
    have split : after = (if inGlobal then [] else [Entry.mk block inGlobal first]) ++
        (tail.map (Entry.mk block inGlobal)).filter Entry.isFixed := by
      simp only [after, shape, List.map_cons, List.filter_cons, isFixed_setting firstSetting]
      cases inGlobal <;> rfl
    have single : before = if inGlobal then [] else [Entry.mk block inGlobal (chomp line)] := by
      simp only [before, List.filter_cons, isFixed_setting lineSetting]
      cases inGlobal <;> rfl
    rw [some, Option.all_some, texts, split, single, writtenKeeps]
    cases inGlobal with
    | true =>
        refine ⟨Nat.zero_le _, ?_⟩
        simp only [Entry.isFixed, if_true, List.nil_append, List.filter_eq_nil_iff, List.forall_mem_map,
          Bool.true_and, Bool.true_or, List.tail_cons, List.all_eq_true]
        exact forall₂_congr fun text _ => by cases isBlankLine text <;> simp
    | false =>
        refine ⟨by simp, ?_⟩
        simp [Entry.isFixed]

theorem append_eq_iff {α : Type} {a b c d : List α} (front : a.length ≤ c.length)
    (back : b.length ≤ d.length) : c ++ d = a ++ b ↔ c = a ∧ d = b := by
  constructor
  · intro same
    have lengths := congrArg List.length same
    rw [List.length_append, List.length_append] at lengths
    exact List.append_inj same (by omega)
  · intro given
    rcases given with ⟨rfl, rfl⟩
    rfl

theorem linesAfter_fixed (newConfig : List (Str × Str)) (block : Nat) (inGlobal scan : Bool)
    (lines : List Str)
    (free : ∀ further ∈ furtherLines newConfig scan lines, isHeader further = false) :
    let before := (entries block inGlobal (lines.map chomp)).filter Entry.isFixed
    let after := (entries block inGlobal (linesAfter newConfig scan lines)).filter Entry.isFixed
    before.length ≤ after.length ∧
      (after = before ↔ updateKeeps newConfig scan inGlobal lines = true) := by
  induction lines generalizing block inGlobal scan with
  | nil => exact ⟨Nat.le_refl _, iff_of_true rfl rfl⟩
  | cons line lines ih =>
      obtain ⟨first, tail, shape, same, -⟩ := lineAfter_shape newConfig
        (entersGlobal scan line) line
      rw [furtherLines] at free
      have later := fun block inGlobal => ih block inGlobal (entersGlobal scan line)
        fun further member => free further (by simp [member])
      rw [shape, List.tail_cons] at free
      cases header : isHeader line with
      | true =>
          obtain ⟨none, single⟩ := lineAfter_header newConfig (entersGlobal scan line) header
          have head : isHeader (chomp line) = true := by rw [isHeader_chomp, header]
          simp only [List.map_cons, linesAfter, single, List.cons_append, List.nil_append, entries,
            head, if_true, updateKeeps, none, header, Option.all_none, Bool.true_and,
            isGlobalLine_chomp]
          exact later (block + 1) (isGlobalLine line)
      | false =>
          have plain : ∀ text ∈ lineAfter newConfig (entersGlobal scan line) line,
              isHeader text = false := by
            rw [shape]
            intro text member
            rcases List.mem_cons.mp member with rfl | inside
            · rw [same, header]
            · exact free text (by simp [inside])
          have own : ∀ text ∈ [chomp line], isHeader text = false := by
            intro text member
            rw [List.mem_singleton.mp member, isHeader_chomp, header]
          obtain ⟨front, each⟩ := lineAfter_fixed newConfig block inGlobal
            (entersGlobal scan line) line
          obtain ⟨back, rest⟩ := later block inGlobal
          have before := entries_plain block inGlobal own (lines.map chomp)
          rw [List.singleton_append] at before
          simp only [List.map_cons, List.map_nil, before, linesAfter,
            entries_plain block inGlobal plain, List.filter_append, List.length_append, updateKeeps,
            header, Bool.and_eq_true]
          refine ⟨by simpa using Nat.add_le_add front back, ?_⟩
          exact (append_eq_iff front back).trans (and_congr each rest)

theorem further_of_keeps (scan inGlobal : Bool) (lines : List Str)
    (keeps : updateKeeps newConfig scan inGlobal lines = true) :
    ∀ further ∈ furtherLines newConfig scan lines, isHeader further = false := by
  induction lines generalizing scan inGlobal with
  | nil =>
      intro further member
      cases member
  | cons line lines ih =>
      rw [updateKeeps, Bool.and_eq_true] at keeps
      intro further member
      rcases List.mem_append.mp member with inside | later
      · obtain ⟨first, tail, shape, -, ⟨-, -, rfl⟩ | ⟨written, some, texts, -, -⟩⟩ :=
          lineAfter_shape newConfig (entersGlobal scan line) line
        · rw [shape] at inside
          cases inside
        · have kept := keeps.1
          rw [some, Option.all_some, texts, writtenKeeps, Bool.and_eq_true, List.all_eq_true] at kept
          rw [shape] at inside
          have each := kept.2 further inside
          rw [Bool.or_eq_true, Bool.and_eq_true] at each
          rcases each with blank | ⟨-, setting⟩
          · exact blank_not_header blank
          · exact setting_not_header setting
      · exact ih _ _ keeps.2 further later

/-- The settings update keeps every section exactly when every line that it
replaces may be replaced. -/
theorem update_keeps_iff (newConfig : List (Str × Str)) (conf : Str) :
    (headers (updateSambaGlobalConf newConfig conf) = headers conf ∧
        fixedLines (updateSambaGlobalConf newConfig conf) = fixedLines conf) ↔
      updateKeeps newConfig false false (readlines conf) = true := by
  unfold headers fixedLines
  rw [texts_updateSambaGlobalConf, texts]
  have fixed := linesAfter_fixed newConfig 0 false false (readlines conf)
  constructor
  · intro given
    rcases given with ⟨sameHeaders, sameLines⟩
    have count := congrArg List.length sameHeaders
    rw [← List.countP_eq_length_filter, ← List.countP_eq_length_filter, countP_linesAfter] at count
    have none : (furtherLines newConfig false (readlines conf)).countP isHeader = 0 := by omega
    have free : ∀ further ∈ furtherLines newConfig false (readlines conf),
        isHeader further = false := by
      intro further member
      simpa using List.countP_eq_zero.mp none further member
    exact (fixed free).2.mp sameLines
  · intro keeps
    have free := further_of_keeps false false (readlines conf) keeps
    exact ⟨filter_linesAfter false (readlines conf) free, (fixed free).2.mpr keeps⟩

end Update

end SmolNas.App
