import SmolNas.App.SettingsValues

/-! Settings updates one after the other. The loop reads its own output on the next run, so
each line it writes must be the same kind of line as the one it replaced. -/

namespace SmolNas.App

open Py

section Writers

def GivesAll (newConfig : List (Str × Str)) : Prop :=
  ∀ key ∈ keysToUpdate, ∃ value, newConfig.lookup key = some value ∧
    ∀ c ∈ value, isNewline c = false

/-- The lines end after a line that starts with `[global]` and before the next header. -/
def InGlobal (before : List Str) : Prop :=
  ∃ front header between, before = front ++ header :: between ∧ isGlobalLine header = true ∧
    ∀ line ∈ between, isSectionLine line = false

def scanAfter (scan : Bool) (lines : List Str) : Bool := lines.foldl entersGlobal scan

variable {c1 c2 newConfig : List (Str × Str)}

theorem inGlobal_of_scan {lines : List Str} (scan : scanAfter false lines = true) :
    InGlobal lines := by
  induction lines using List.reverseRecOn with
  | nil => cases scan
  | append_singleton lines line ih =>
      rw [scanAfter, List.foldl_concat, entersGlobal] at scan
      split at scan
      next opens => exact ⟨lines, line, [], rfl, opens, by simp⟩
      next =>
        split at scan
        next => cases scan
        next other =>
          rcases ih scan with ⟨front, header, between, whole, opens, inside⟩
          refine ⟨front, header, between ++ [line], by simp [whole], opens, ?_⟩
          intro l member
          rcases List.mem_append.mp member with earlier | last
          · exact inside l earlier
          · rw [List.mem_singleton.mp last]
            exact Bool.eq_false_iff.mpr other

theorem scan_of_inGlobal {lines : List Str} (inside : InGlobal lines) :
    scanAfter false lines = true := by
  rcases inside with ⟨front, header, between, rfl, opens, plain⟩
  rw [scanAfter, List.foldl_append, List.foldl_cons, entersGlobal, if_pos opens]
  induction between with
  | nil => rfl
  | cons line between ih =>
      have stays : entersGlobal true line = true := by
        rw [entersGlobal, plain line List.mem_cons_self]
        exact ite_self true
      rw [List.foldl_cons, stays]
      exact ih fun l member => plain l (List.mem_cons_of_mem line member)

theorem setting_not_section {line : Str} (setting : isSetting line = true) :
    isSectionLine line = false := by
  rw [← Bool.not_eq_true]
  intro opens
  have header := isHeader_section opens
  rw [setting_not_header setting] at header
  cases header

theorem isSetting_settingLine {key : Str} (known : key ∈ keysToUpdate) (value : Str) :
    isSetting (settingLine key value) = true ∧ settingKey (settingLine key value) = key := by
  have assigns := settingText_assigns key value
  have text : settingLine key value = settingText key value ++ ['\n'] := rfl
  have own : settingKey (settingLine key value) = key := by
    rw [text, settingKey_feed assigns, settingText_key known]
  refine ⟨?_, own⟩
  have inside : '=' ∈ settingLine key value := by
    rw [text]
    exact List.mem_append_left _ assigns
  rw [isSetting, own, List.contains_iff_mem.mpr inside, List.contains_iff_mem.mpr known]
  rfl

theorem written_cases (all : GivesAll newConfig) (scan : Bool) (line : Str) :
    replacement newConfig scan line = none ∨
      scan = true ∧ isSetting line = true ∧ ∃ value,
        newConfig.lookup (settingKey line) = some value ∧ (∀ c ∈ value, isNewline c = false) ∧
        replacement newConfig scan line = some (settingLine (settingKey line) value) := by
  cases scan with
  | false => exact .inl (replacement_outside line)
  | true =>
      rw [replacement_global]
      cases setting : isSetting line with
      | false => exact .inl rfl
      | true =>
          rcases all _ (setting_assigns setting).2 with ⟨value, given, plain⟩
          refine .inr ⟨rfl, rfl, value, given, plain, ?_⟩
          rw [if_pos rfl, given, Option.map_some]

theorem rewritten_line (first : GivesAll c1) (second : GivesAll c2) (scan : Bool) (line : Str) :
    let written := (replacement c1 (entersGlobal scan line) line).getD line
    entersGlobal scan written = entersGlobal scan line ∧
      (replacement c2 (entersGlobal scan line) written).getD written =
        (replacement c2 (entersGlobal scan line) line).getD line := by
  dsimp only
  rcases written_cases first (entersGlobal scan line) line with
    none | ⟨inside, setting, value, -, -, some⟩
  · rw [none]
    exact ⟨rfl, rfl⟩
  · have known := (setting_assigns setting).2
    rcases isSetting_settingLine known value with ⟨written, own⟩
    rcases second _ known with ⟨value', given, -⟩
    constructor
    · rw [some, Option.getD_some, entersGlobal_plain (setting_not_header written),
        entersGlobal_plain (setting_not_header setting)]
    · rw [some, Option.getD_some, inside, replacement_global, replacement_global, written,
        setting, own, given]
      rfl

theorem updateScan_updateScan (first : GivesAll c1) (second : GivesAll c2) (scan : Bool)
    (lines : List Str) :
    updateScan c2 scan (updateScan c1 scan lines) = updateScan c2 scan lines := by
  induction lines generalizing scan with
  | nil => rfl
  | cons line lines ih =>
      rcases rewritten_line first second scan line with ⟨flag, written⟩
      rw [updateScan, updateScan, updateScan, flag, written, ih]

theorem readlines_updateSambaGlobalConf (all : GivesAll newConfig) (conf : Str) :
    readlines (updateSambaGlobalConf newConfig conf) =
      updateScan newConfig false (readlines conf) := by
  have each (scan : Bool) (lines : List Str) (read : ∀ line ∈ lines, readlines line = [line]) :
      (updateScan newConfig scan lines).flatMap readlines = updateScan newConfig scan lines := by
    induction lines generalizing scan with
    | nil => rfl
    | cons line lines ih =>
        have later := ih (entersGlobal scan line) fun l member =>
          read l (List.mem_cons_of_mem _ member)
        have here : readlines ((replacement newConfig (entersGlobal scan line) line).getD line) =
            [(replacement newConfig (entersGlobal scan line) line).getD line] := by
          rcases written_cases all (entersGlobal scan line) line with
            none | ⟨-, setting, value, -, plain, some⟩
          · rw [none]
            exact read line List.mem_cons_self
          · rw [some]
            exact readlines_settingLine (setting_assigns setting).2 plain
        rw [updateScan, List.flatMap_cons, here, later, List.singleton_append]
  rw [updateSambaGlobalConf,
    readlines_flatten (allTerminated_updateScan false (allTerminated_readlines conf))]
  exact each false _ fun line member => readlines_line member

theorem length_updateScan (scan : Bool) (lines : List Str) :
    (updateScan newConfig scan lines).length = lines.length := by
  induction lines generalizing scan with
  | nil => rfl
  | cons line lines ih => rw [updateScan, List.length_cons, ih, List.length_cons]

theorem getElem?_updateScan (scan : Bool) (lines : List Str) (i : Nat) :
    (updateScan newConfig scan lines)[i]? = lines[i]?.map fun line =>
      (replacement newConfig (entersGlobal (scanAfter scan (lines.take i)) line) line).getD line := by
  induction lines generalizing scan i with
  | nil => rfl
  | cons line lines ih =>
      cases i with
      | zero => rfl
      | succ i =>
          rw [updateScan, List.getElem?_cons_succ, List.getElem?_cons_succ, ih]
          rfl

/-- The text has no carriage returns, so its lines are the lines that the loop reads. -/
theorem keepends_readlines {text : Str} (free : newlines isNewline false text = text) :
    keepends text = readlines text := by
  rw [readlines, free]

theorem keepends_updateSambaGlobalConf (all : GivesAll newConfig) {conf : Str}
    (free : '\r' ∉ conf) :
    keepends (updateSambaGlobalConf newConfig conf) =
      updateScan newConfig false (keepends conf) := by
  have lines := readlines_updateSambaGlobalConf all conf
  have same : newlines isNewline false (updateSambaGlobalConf newConfig conf) =
      updateSambaGlobalConf newConfig conf := by
    calc
      newlines isNewline false (updateSambaGlobalConf newConfig conf) =
          (readlines (updateSambaGlobalConf newConfig conf)).flatten :=
        (flatten_keepends _).symm
      _ = updateSambaGlobalConf newConfig conf := by rw [lines, updateSambaGlobalConf]
  rw [keepends_readlines same, lines, keepends_readlines (newlines_feeds conf free)]

theorem updated_line (all : GivesAll newConfig) {conf : Str} (free : '\r' ∉ conf) {i : Nat}
    {line : Str} (here : (keepends conf)[i]? = some line) :
    (keepends (updateSambaGlobalConf newConfig conf))[i]? = some line ∨
      InGlobal ((keepends conf).take i) ∧ isSectionLine line = false ∧ '=' ∈ line ∧
        settingKey line ∈ keysToUpdate ∧
        ∃ value, newConfig.lookup (settingKey line) = some value ∧
          (keepends (updateSambaGlobalConf newConfig conf))[i]? =
            some (settingLine (settingKey line) value) := by
  rw [keepends_updateSambaGlobalConf all free, getElem?_updateScan, here, Option.map_some]
  rcases written_cases all (entersGlobal (scanAfter false ((keepends conf).take i)) line) line with
    none | ⟨inside, setting, value, given, -, some⟩
  · left
    rw [none, Option.getD_none]
  · right
    rw [entersGlobal_plain (setting_not_header setting)] at inside
    rw [some, Option.getD_some]
    rcases setting_assigns setting with ⟨assigns, known⟩
    exact ⟨inGlobal_of_scan inside, setting_not_section setting, assigns, known, value, given, rfl⟩

theorem written_line (all : GivesAll newConfig) {conf : Str} (free : '\r' ∉ conf) {i : Nat}
    {line : Str} (here : (keepends conf)[i]? = some line)
    (inside : InGlobal ((keepends conf).take i)) (assigns : '=' ∈ line)
    (known : settingKey line ∈ keysToUpdate) :
    ∃ value, newConfig.lookup (settingKey line) = some value ∧
      (keepends (updateSambaGlobalConf newConfig conf))[i]? =
        some (settingLine (settingKey line) value) := by
  have setting : isSetting line = true := isSetting_of_key assigns known
  have scan : entersGlobal (scanAfter false ((keepends conf).take i)) line = true := by
    rw [entersGlobal_plain (setting_not_header setting), scan_of_inGlobal inside]
  rcases all _ known with ⟨value, given, -⟩
  refine ⟨value, given, ?_⟩
  rw [keepends_updateSambaGlobalConf all free, getElem?_updateScan, here, Option.map_some, scan,
    replacement_global, if_pos setting, given, Option.map_some, Option.getD_some]

theorem update_update (first : GivesAll c1) (second : GivesAll c2) (conf : Str) :
    updateSambaGlobalConf c2 (updateSambaGlobalConf c1 conf) = updateSambaGlobalConf c2 conf := by
  rw [updateSambaGlobalConf, readlines_updateSambaGlobalConf first,
    updateScan_updateScan first second, updateSambaGlobalConf]

end Writers

/-- The update changes the lines of `[global]` for its keys and no others, each in its place, and
the last of two updates decides. -/
theorem update_last_writer (c1 c2 : List (Str × Str)) (conf : Str) (first : GivesAll c1)
    (second : GivesAll c2) (free : '\r' ∉ conf) :
    (keepends (updateSambaGlobalConf c1 conf)).length = (keepends conf).length ∧
      (∀ i line, (keepends conf)[i]? = some line →
        (keepends (updateSambaGlobalConf c1 conf))[i]? = some line ∨
          InGlobal ((keepends conf).take i) ∧ isSectionLine line = false ∧ '=' ∈ line ∧
            settingKey line ∈ keysToUpdate ∧
            ∃ value, c1.lookup (settingKey line) = some value ∧
              (keepends (updateSambaGlobalConf c1 conf))[i]? =
                some (settingLine (settingKey line) value)) ∧
      (∀ i line, (keepends conf)[i]? = some line → InGlobal ((keepends conf).take i) →
        '=' ∈ line → settingKey line ∈ keysToUpdate →
          ∃ value, c1.lookup (settingKey line) = some value ∧
            (keepends (updateSambaGlobalConf c1 conf))[i]? =
              some (settingLine (settingKey line) value)) ∧
      updateSambaGlobalConf c1 (updateSambaGlobalConf c1 conf) = updateSambaGlobalConf c1 conf ∧
      updateSambaGlobalConf c2 (updateSambaGlobalConf c1 conf) =
        updateSambaGlobalConf c2 conf := by
  refine ⟨?_, fun i line here => updated_line first free here,
    fun i line here inside assigns known => written_line first free here inside assigns known,
    update_update first first conf, update_update first second conf⟩
  rw [keepends_updateSambaGlobalConf first free, length_updateScan]

theorem newConf_givesAll {form : GlobalForm}
    (plain : form.newConf.all (fun entry => entry.2.all (!isNewline ·)) = true) :
    GivesAll form.newConf := by
  intro key known
  have keys : keysToUpdate = form.newConf.map Prod.fst := rfl
  rw [keys] at known
  rcases List.mem_map.mp known with ⟨entry, member, same⟩
  cases found : form.newConf.lookup key with
  | none =>
      have other := List.lookup_eq_none_iff.mp found entry member
      rw [same, bne_self_eq_false] at other
      cases other
  | some value =>
      rcases List.lookup_eq_some_iff.mp found with ⟨front, back, whole, -⟩
      have inside : (key, value) ∈ form.newConf := by
        rw [whole]
        simp
      exact ⟨value, rfl, all_plain.mp (List.all_eq_true.mp plain _ inside)⟩

def workgroupForm (workgroup : Str) : GlobalForm := ⟨some workgroup, none, none, none, none⟩

theorem update_last_writer_brackets :
    updateSambaGlobalConf (workgroupForm "B".toList).newConf
        (updateSambaGlobalConf (workgroupForm "[a]=;".toList).newConf
          "[global]\n  workgroup=HOME\n[docs]\n  workgroup = x".toList) =
      "[global]\n   workgroup = B\n[docs]\n  workgroup = x".toList := by
  have both := (update_last_writer (workgroupForm "[a]=;".toList).newConf
    (workgroupForm "B".toList).newConf "[global]\n  workgroup=HOME\n[docs]\n  workgroup = x".toList
    (newConf_givesAll (by decide)) (newConf_givesAll (by decide)) (by decide)).2.2.2.2
  rw [both]
  decide +kernel

end SmolNas.App
