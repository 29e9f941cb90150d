import SmolNas.App.FieldValues
import SmolNas.App.SettingsForm

/-! What submitting the settings page without edits does to the values of `[global]`. -/

namespace SmolNas.App

open Py

section Rewriting

variable {newConfig : List (Str × Str)}

def settingText (key value : Str) : Str := "   ".toList ++ key ++ " = ".toList ++ value

def rewriteText (newConfig : List (Str × Str)) (text : Str) : Str :=
  if isSetting text then
    match newConfig.lookup (settingKey text) with
    | some value => settingText (settingKey text) value
    | none => text
  else text

theorem settingKey_feed {w : Str} (inside : '=' ∈ w) :
    settingKey (w ++ ['\n']) = settingKey w := by
  have same : (w ++ ['\n']).takeWhile (· != '=') = w.takeWhile (· != '=') := by
    rw [List.takeWhile_append, if_neg]
    intro whole
    have all := List.takeWhile_eq_self_iff.mp ((List.takeWhile_prefix _).eq_of_length whole)
    exact absurd (all '=' inside) (by decide)
  rw [settingKey, same, settingKey]

theorem isSetting_feed (w : Str) : isSetting (w ++ ['\n']) = isSetting w := by
  by_cases inside : '=' ∈ w
  · have start : startswith (w ++ ['\n']) [';'] = startswith w [';'] := by
      cases w with
      | nil => cases inside
      | cons c w => rfl
    simp [isSetting, inside, start, settingKey_feed inside]
  · simp [isSetting, inside]

theorem setting_assigns {text : Str} (setting : isSetting text = true) :
    '=' ∈ text ∧ settingKey text ∈ keysToUpdate := by
  simp only [isSetting, Bool.and_eq_true, List.contains_iff_mem] at setting
  exact ⟨setting.1.1, setting.2⟩

theorem rewriteText_chomp (line : Str) :
    rewriteText newConfig (chomp line) =
      if isSetting line then
        match newConfig.lookup (settingKey line) with
        | some value => settingText (settingKey line) value
        | none => chomp line
      else chomp line := by
  unfold chomp
  split
  next last =>
    rcases List.getLast?_eq_some_iff.mp last with ⟨w, whole⟩
    rw [whole, List.dropLast_concat, isSetting_feed, rewriteText]
    cases setting : isSetting w with
    | false => rfl
    | true => rw [settingKey_feed (setting_assigns setting).1]
  next => rfl

theorem isHeader_global {line : Str} (opens : isGlobalLine line = true) : isHeader line = true := by
  rcases List.isPrefixOf_iff_prefix.mp opens with ⟨rest, whole⟩
  rw [isHeader_iff]
  exact ⟨"global]".toList ++ rest, whole.symm, by simp⟩

theorem entersGlobal_plain {line : Str} (plain : isHeader line = false) (scan : Bool) :
    entersGlobal scan line = scan := by
  have other : isGlobalLine line = false := by
    rw [← Bool.not_eq_true]
    intro opens
    rw [isHeader_global opens] at plain
    cases plain
  have inside : isSectionLine line = false := by
    rw [← Bool.not_eq_true]
    intro opens
    rw [isHeader_section opens] at plain
    cases plain
  rw [entersGlobal, other, inside]
  rfl

theorem replacement_global (line : Str) :
    replacement newConfig true line =
      if isSetting line then
        (newConfig.lookup (settingKey line)).map (settingLine (settingKey line))
      else none := by
  cases setting : isSetting line with
  | true =>
      have other : isGlobalLine line = false := by
        rw [← Bool.not_eq_true]
        intro opens
        have header := setting_not_header setting
        rw [isHeader_global opens] at header
        cases header
      simp only [isSetting, Bool.and_eq_true] at setting
      rw [replacement, other, setting.1.1, setting.1.2, setting.2]
      rfl
  | false =>
      rw [if_neg Bool.false_ne_true]
      cases replaced : replacement newConfig true line with
      | none => rfl
      | some written =>
          have found := (replacement_setting replaced).1
          rw [setting] at found
          cases found

def PlainValues (newConfig : List (Str × Str)) : Prop :=
  ∀ key value, newConfig.lookup key = some value → ∀ c ∈ value, isNewline c = false

theorem settingText_plain {key value : Str} (known : key ∈ keysToUpdate)
    (plain : ∀ c ∈ value, isNewline c = false) :
    ∀ c ∈ settingText key value, isNewline c = false := by
  have table : ∀ key ∈ keysToUpdate,
      ("   ".toList ++ key ++ " = ".toList).all (!isNewline ·) = true := by decide
  intro c member
  rcases List.mem_append.mp member with lead | tail
  · exact all_plain.mp (table key known) c lead
  · exact plain c tail

theorem readlines_settingLine {key value : Str} (known : key ∈ keysToUpdate)
    (plain : ∀ c ∈ value, isNewline c = false) :
    readlines (settingLine key value) = [settingLine key value] :=
  readlines_single (settingText_plain known plain)

theorem texts_settingLine_plain {key value : Str} (known : key ∈ keysToUpdate)
    (plain : ∀ c ∈ value, isNewline c = false) :
    texts (settingLine key value) = [settingText key value] :=
  texts_single (settingText_plain known plain)

theorem replacement_outside (line : Str) : replacement newConfig false line = none := by
  rw [replacement]
  split
  · rfl
  · rfl

theorem lineAfter_plain (plain : PlainValues newConfig) (scan : Bool) (line : Str) :
    lineAfter newConfig scan line =
      [if scan then rewriteText newConfig (chomp line) else chomp line] := by
  cases scan with
  | false =>
      rw [lineAfter, replacement_outside]
      rfl
  | true =>
      rw [lineAfter, replacement_global, rewriteText_chomp]
      cases setting : isSetting line with
      | false => rfl
      | true =>
          cases value : newConfig.lookup (settingKey line) with
          | none => rfl
          | some value' =>
              exact texts_settingLine_plain (setting_assigns setting).2 (plain _ _ value)

theorem settingText_assigns (key value : Str) : '=' ∈ settingText key value := by
  simp [settingText]

section Written

variable {key : Str} (known : key ∈ keysToUpdate) (value : Str)

include known

theorem settingText_not_header : isHeader (settingText key value) = false := by
  have table : ∀ key ∈ keysToUpdate,
      (lstrip ("   ".toList ++ key ++ " = ".toList)).head?.any (· != '[') = true := by decide
  exact lead_not_header (table key known) value

theorem settingText_key : settingKey (settingText key value) = key := by
  have table : ∀ key ∈ keysToUpdate, ("   ".toList ++ key ++ " ".toList).all (· != '=') = true ∧
      strip ("   ".toList ++ key ++ " ".toList) = key := by decide
  have split : settingText key value =
      ("   ".toList ++ key ++ " ".toList) ++ '=' :: (' ' :: value) := by
    simp [settingText]
  rw [settingKey, split, List.takeWhile_append_of_pos (List.all_eq_true.mp (table key known).1)]
  simpa using (table key known).2

theorem settingText_value : valueText (settingText key value) = strip value := by
  have table : ∀ key ∈ keysToUpdate,
      ("   ".toList ++ key ++ " ".toList).all (· != '=') = true := by decide
  have split : settingText key value =
      ("   ".toList ++ key ++ " ".toList) ++ '=' :: (' ' :: value) := by
    simp [settingText]
  have space : strip (' ' :: value) = strip value := rfl
  rw [valueText, split, List.dropWhile_append_of_pos (List.all_eq_true.mp (table key known))]
  simpa using space

end Written

theorem isHeader_rewriteText (text : Str) :
    isHeader (rewriteText newConfig text) = isHeader text := by
  rw [rewriteText]
  split
  next setting =>
    split
    next value found =>
      rw [setting_not_header setting]
      exact settingText_not_header (setting_assigns setting).2 value
    next => rfl
  next => rfl

theorem globalTexts_linesAfter (plain : PlainValues newConfig) (block : Nat)
    (inGlobal scan : Bool) (lines : List Str) (known : inGlobal = true → scan = true) :
    ((entries block inGlobal (linesAfter newConfig scan lines)).filter Entry.inGlobal).map
        Entry.text =
      (((entries block inGlobal (lines.map chomp)).filter Entry.inGlobal).map Entry.text).map
        (rewriteText newConfig) := by
  induction lines generalizing block inGlobal scan with
  | nil => rfl
  | cons line lines ih =>
      cases header : isHeader line with
      | true =>
          have opened : isGlobalLine line = true → entersGlobal scan line = true := by
            intro opens
            rw [entersGlobal, opens]
            rfl
          have single := (lineAfter_header newConfig (entersGlobal scan line) header).2
          have head : isHeader (chomp line) = true := by rw [isHeader_chomp, header]
          rw [linesAfter, single, List.singleton_append, List.map_cons, entries, entries,
            if_pos head, if_pos head, isGlobalLine_chomp]
          exact ih (block + 1) (isGlobalLine line) (entersGlobal scan line) opened
      | false =>
          have head : isHeader (chomp line) = false := by rw [isHeader_chomp, header]
          have rest := ih block inGlobal scan known
          have after : isHeader (if scan then rewriteText newConfig (chomp line) else chomp line) =
              false := by
            cases scan with
            | true => rw [if_pos rfl, isHeader_rewriteText, head]
            | false => exact head
          rw [linesAfter, entersGlobal_plain header, lineAfter_plain plain, List.singleton_append,
            List.map_cons, entries, entries, head, after, if_neg Bool.false_ne_true,
            if_neg Bool.false_ne_true, List.filter_cons, List.filter_cons]
          cases inGlobal with
          | true =>
              rw [known rfl] at rest ⊢
              rw [if_pos rfl, if_pos rfl, if_pos rfl, List.map_cons, rest]
              rfl
          | false => exact rest

theorem globalTexts_update (plain : PlainValues newConfig) (conf : Str) :
    globalTexts (updateSambaGlobalConf newConfig conf) =
      (globalTexts conf).map (rewriteText newConfig) := by
  rw [globalTexts, texts_updateSambaGlobalConf]
  exact globalTexts_linesAfter plain 0 false false (readlines conf) (fun none => none)

variable {db : CharData}

theorem rewriteText_assigns (key text : Str) :
    assigns db key (rewriteText newConfig text) = assigns db key text := by
  rw [rewriteText]
  split
  next setting =>
    split
    next value found =>
      have known := setting_assigns setting
      simp [assigns, settingText_key known.2, settingText_assigns, known.1]
    next => rfl
  next => rfl

theorem globalLine_update (plain : PlainValues newConfig) (key conf : Str) :
    globalLine db key (updateSambaGlobalConf newConfig conf) =
      (globalLine db key conf).map (rewriteText newConfig) := by
  have same : (assigns db key ∘ rewriteText newConfig) = assigns db key := by
    funext text
    exact rewriteText_assigns key text
  rw [globalLine, globalTexts_update plain, List.filter_map, same, List.getLast?_map, globalLine]

theorem assigns_of_globalLine {key conf line : Str} (found : globalLine db key conf = some line) :
    assigns db key line = true :=
  (List.mem_filter.mp (List.mem_of_getLast? found)).2

theorem lower_keys (db : CharData) : ∀ key ∈ keysToUpdate, db.lower key = key := by
  have table : ∀ key ∈ keysToUpdate, key.all (fun c => decide (c.toNat < 128) &&
      !(decide (65 ≤ c.toNat) && decide (c.toNat ≤ 90))) = true := by decide
  intro key known
  exact db.lower_small (table key known)

theorem isSetting_of_key {line : Str} (assignment : '=' ∈ line)
    (known : settingKey line ∈ keysToUpdate) : isSetting line = true := by
  have table : ∀ key ∈ keysToUpdate, key.head? ≠ some ';' := by decide
  have start : startswith line [';'] = false := by
    cases line with
    | nil => cases assignment
    | cons c rest =>
        by_cases comment : c = ';'
        · subst comment
          have head : (settingKey (';' :: rest)).head? = some ';' := by
            rw [settingKey, strip_head?]
            rfl
          exact absurd head (table _ known)
        · simp [startswith, List.isPrefixOf, Ne.symm comment]
  simp [isSetting, assignment, start, known]

theorem globalValue_update (db : CharData) (plain : PlainValues newConfig) {key : Str}
    (known : key ∈ keysToUpdate) {value : Str} (given : newConfig.lookup key = some value)
    (conf : Str) :
    (globalValue db key (updateSambaGlobalConf newConfig conf)).map db.lower =
        (globalValue db key conf).map db.lower ↔
      ∀ v, rewrittenValue db key conf = some v → SameText db (strip value) v := by
  rw [globalValue, globalLine_update plain, globalValue, rewrittenValue]
  cases found : globalLine db key conf with
  | none => simp
  | some line =>
      have assigned := assigns_of_globalLine found
      simp only [assigns, Bool.and_eq_true, List.contains_iff_mem, beq_iff_eq] at assigned
      by_cases exact' : settingKey line = key
      · have setting : isSetting line = true :=
          isSetting_of_key assigned.1 (by rw [exact']; exact known)
        have written : rewriteText newConfig line = settingText key value := by
          rw [rewriteText, if_pos setting, exact', given]
        simp [written, settingText_value known, exact', SameText]
      · have other : isSetting line = false := by
          rw [← Bool.not_eq_true]
          intro setting
          have lowered := lower_keys db _ (setting_assigns setting).2
          exact exact' (lowered.symm.trans assigned.2)
        have kept : rewriteText newConfig line = line := by
          rw [rewriteText, other]
          rfl
        simp [kept, exact']

end Rewriting

section Resubmit

theorem inputText_plain (value : Str) : ∀ c ∈ inputText value, isNewline c = false := by
  intro c member
  rcases List.mem_map.mp member with ⟨d, kept, same⟩
  have plain : isNewline d = false := by simpa using (List.mem_filter.mp kept).2
  rw [← same]
  split
  · rfl
  · exact plain

theorem selected_two {first second : Str} (differ : first ≠ second) (value : Option Str) :
    selected [first, second] value = if value = some second then second else first := by
  by_cases other : value = some second
  · simp [selected, other, differ]
  · rw [if_neg other]
    by_cases same : value = some first
    · simp [selected, same]
    · have none : [first, second].find? (some · == value) = none := by
        simp [Ne.symm other, Ne.symm same]
      rw [selected, none]
      rfl

variable (config : List (Str × Str))

def submittedConf : List (Str × Str) :=
  [("workgroup".toList, workgroupText config), ("netbios name".toList, netbiosText config),
    ("server min protocol".toList,
      if config.lookup "server min protocol".toList = some "NT1".toList then "NT1".toList
      else "SMB2".toList),
    ("server max protocol".toList,
      if config.lookup "server max protocol".toList = some "SMB2".toList then "SMB2".toList
      else "SMB3".toList),
    ("map to guest".toList,
      if config.lookup "map to guest".toList = some "Bad User".toList then "Bad User".toList
      else "Never".toList)]

theorem uneditedForm_newConf :
    (uneditedForm config).map GlobalForm.newConf =
      if workgroupText config = [] then none else some (submittedConf config) := by
  rw [uneditedForm]
  split
  · rfl
  · rw [Option.map_some, GlobalForm.newConf, submittedConf, selected_two (by decide),
      selected_two (by decide)]
    congr 5
    by_cases guest : config.lookup "map to guest".toList = some "Bad User".toList
    · rw [if_pos guest, if_pos guest]
      rfl
    · rw [if_neg guest, if_neg guest]
      rfl

theorem submittedConf_plain : PlainValues (submittedConf config) := by
  intro key value found
  rcases List.lookup_eq_some_iff.mp found with ⟨before, after, whole, _⟩
  have member : (key, value) ∈ submittedConf config := by simp [whole]
  simp only [submittedConf, List.mem_cons, Prod.mk.injEq, List.not_mem_nil, or_false] at member
  rcases member with h | h | h | h | h
  · rw [h.2]
    exact inputText_plain _
  · rw [h.2]
    exact inputText_plain _
  · rw [h.2]
    split <;> exact List.all_iff_forall_prop.mp (by decide)
  · rw [h.2]
    split <;> exact List.all_iff_forall_prop.mp (by decide)
  · rw [h.2]
    split <;> exact List.all_iff_forall_prop.mp (by decide)

theorem sameText_strip_ite {c : Prop} [Decidable c] (db : CharData) {a b v : Str}
    (first : strip a = a) (second : strip b = b) :
    SameText db (strip (if c then a else b)) v ↔ if c then SameText db a v else SameText db b v := by
  split
  · rw [first]
  · rw [second]

theorem resubmitted_eq (db : CharData) (env : Env) (conf : Str) :
    resubmitted db env conf =
      if workgroupText (getSambaGlobal db conf) = [] then conf
      else updateSambaGlobalConf (submittedConf (getSambaGlobal db conf)) conf := by
  have form := uneditedForm_newConf (getSambaGlobal db conf)
  rw [resubmitted]
  split at form
  next empty =>
    rw [Option.map_eq_none_iff.mp form, if_pos empty]
  next some =>
    rcases Option.map_eq_some_iff.mp form with ⟨unedited, same, values⟩
    rw [same, if_neg some, ← values]
    rfl

end Resubmit

theorem resubmit_keeps_iff (db : CharData) (env : Env) (conf : Str) :
    (∀ key ∈ keysToUpdate, (globalValue db key (resubmitted db env conf)).map db.lower =
        (globalValue db key conf).map db.lower) ↔
      workgroupText (getSambaGlobal db conf) = [] ∨
        FormShows db (getSambaGlobal db conf) conf := by
  rw [resubmitted_eq]
  by_cases empty : workgroupText (getSambaGlobal db conf) = []
  · simp [empty]
  · rw [if_neg empty]
    generalize getSambaGlobal db conf = config at empty ⊢
    have each {key value : Str} (known : key ∈ keysToUpdate)
        (given : (submittedConf config).lookup key = some value) :=
      globalValue_update db (submittedConf_plain config) known given conf
    have workgroup := each (by decide : "workgroup".toList ∈ keysToUpdate) rfl
    have netbios := each (by decide : "netbios name".toList ∈ keysToUpdate) rfl
    have min := each (by decide : "server min protocol".toList ∈ keysToUpdate) rfl
    have max := each (by decide : "server max protocol".toList ∈ keysToUpdate) rfl
    have guest := each (by decide : "map to guest".toList ∈ keysToUpdate) rfl
    simp only [sameText_strip_ite db (by decide : strip "NT1".toList = "NT1".toList)
      (by decide : strip "SMB2".toList = "SMB2".toList)] at min
    simp only [sameText_strip_ite db (by decide : strip "SMB2".toList = "SMB2".toList)
      (by decide : strip "SMB3".toList = "SMB3".toList)] at max
    simp only [sameText_strip_ite db (by decide : strip "Bad User".toList = "Bad User".toList)
      (by decide : strip "Never".toList = "Never".toList)] at guest
    constructor
    · intro same
      right
      constructor
      · exact workgroup.mp (same _ (by decide))
      · exact netbios.mp (same _ (by decide))
      · exact min.mp (same _ (by decide))
      · exact max.mp (same _ (by decide))
      · exact guest.mp (same _ (by decide))
    · intro given key known
      have shows := given.resolve_left empty
      simp only [keysToUpdate, List.map_cons, List.map_nil, List.mem_cons, List.not_mem_nil,
        or_false] at known
      rcases known with h | h | h | h | h
      · rw [h]
        exact workgroup.mpr shows.workgroup
      · rw [h]
        exact netbios.mpr shows.netbiosName
      · rw [h]
        exact min.mpr shows.minProtocol
      · rw [h]
        exact max.mpr shows.maxProtocol
      · rw [h]
        exact guest.mpr shows.mapToGuest

def smb3Only : Str := "[global]\n   workgroup = HOME\n   server min protocol = SMB3\n".toList

/-- The form offers SMB2 and NT1, so that saving it allows SMB2 again. -/
theorem resubmit_downgrades : ¬∀ (db : CharData) (env : Env) (conf : Str),
    ∀ key ∈ keysToUpdate, (globalValue db key (resubmitted db env conf)).map db.lower =
      (globalValue db key conf).map db.lower := by
  intro all
  have same := all .ascii ⟨true, "dev".toList, "secret".toList⟩ smb3Only
    "server min protocol".toList (by decide)
  revert same
  decide +kernel

end SmolNas.App
