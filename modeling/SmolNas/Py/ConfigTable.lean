import SmolNas.Lib.Keyed
import SmolNas.Py.ConfigWritten

/-! Files without continuation lines, read as a table of sections: headers are not indented,
and all options have the indentation with which a program writes them. -/

namespace SmolNas.Py.ConfigParser

open Lib

section Lines

/-- A line of such a file. -/
inductive PlainLine where
  | skip
  | header (name : Str)
  | option (key value : Str)
  | other
  deriving DecidableEq, Repr

def plainLine (db : CharData) (line : Str) : PlainLine :=
  if isComment line || strip line == [] then .skip
  else if startswith (strip line) ['['] then
    let name := ((strip line).drop 1).dropLast
    if indentOf line == 0 && endswith (strip line) [']'] && name != [] &&
        name != defaultSection then .header name
    else .other
  else if indentOf line == 3 then
    match optionParts (strip line) with
    | none => .other
    | some (name, value) => if name = [] then .other else .option (db.lower name) value
  else .other

def opens : List PlainLine → Bool
  | [] => true
  | .skip :: lines => opens lines
  | .header _ :: _ => true
  | _ :: _ => false

end Lines

section Tables

abbrev Table := List (Str × List (Str × Str))

namespace Table

def openSection (name : Str) (table : Table) : Table :=
  if table.any (·.1 == name) then table else table ++ [(name, [])]

def modify (name : Str) (f : List (Str × Str) → List (Str × Str)) (table : Table) : Table :=
  table.map fun s => if s.1 = name then (s.1, f s.2) else s

/-- The table and the current section after a line. -/
def step : Table × Option Str → PlainLine → Table × Option Str
  | (table, _), .header name => (table.openSection name, some name)
  | (table, some name), .option key value =>
      (table.modify name (upsert Prod.fst (key, value)), some name)
  | place, _ => place

def options (table : Table) (name : Str) : List (Str × Str) := (table.lookup name).getD []

def text (table : Table) (name key : Str) : Option Str := (table.options name).lookup key

/-- The text of an option, with the options of the section put in that it names. -/
def value (db : CharData) (table : Table) (name key : Str) : Option Str :=
  (table.text name key).bind (interpolate db (table.text name) maxInterpolationDepth)

end Table

def values (options : Options) : List (Str × Str) := options.map fun o => (o.1, joined o.2)

/-- The parser stands at this place of the table. -/
structure ReadsAs (st : State) (place : Table × Option Str) : Prop where
  sections : st.sections.map (fun s => (s.1, values s.2)) = place.1
  defaults : st.defaults = []
  cursect : st.cursect = place.2
  proper : place.2 ≠ some defaultSection
  failed : st.failed = false
  level : st.openOption = none ∨ st.indentLevel = 3

end Tables

section Reading

variable {db : CharData} {st : State} {place : Table × Option Str} {line : Str}

theorem values_extend (name : Str) (options : Options) :
    values (extendOption name [] options) = values options := by
  rw [values, extendOption, List.map_map, values]
  apply List.map_congr_left
  intro o _
  rw [Function.comp_apply]
  split
  next same => rw [joined_blank, same]
  next => rfl

theorem values_set (options : Options) (key value : Str) :
    values (setOption options key [strip value]) =
      upsert Prod.fst (key, strip value) (values options) := by
  have known : (values options).any (·.1 == key) = options.any (·.1 == key) := by
    rw [values, List.any_map]
    rfl
  rw [setOption, upsert, known]
  split
  · rw [values, values, List.map_map, List.map_map]
    apply List.map_congr_left
    intro o _
    rw [Function.comp_apply, Function.comp_apply]
    by_cases same : o.1 = key
    · rw [if_pos same, if_pos (beq_iff_eq.mpr same), joined_strip]
    · rw [if_neg same, if_neg (mt beq_iff_eq.mp same)]
  · rw [values, values, List.map_append, List.map_singleton, joined_strip]

theorem values_modify {name : Str} {f : Options → Options}
    {g : List (Str × Str) → List (Str × Str)} (same : ∀ options, values (f options) = g (values options))
    (sections : List (Str × Options)) :
    (sections.map fun s => if s.1 = name then (s.1, f s.2) else s).map
        (fun s => (s.1, values s.2)) =
      Table.modify name g (sections.map fun s => (s.1, values s.2)) := by
  rw [Table.modify, List.map_map, List.map_map]
  apply List.map_congr_left
  intro s _
  rw [Function.comp_apply, Function.comp_apply]
  by_cases own : s.1 = name
  · rw [if_pos own, if_pos own, same]
  · rw [if_neg own, if_neg own]

theorem readsAs_modify (reads : ReadsAs st place) {f : Options → Options}
    {g : List (Str × Str) → List (Str × Str)}
    (same : ∀ options, values (f options) = g (values options)) {name : Str}
    (here : place.2 = some name) :
    (st.modify f).sections.map (fun s => (s.1, values s.2)) = Table.modify name g place.1 ∧
      (st.modify f).defaults = [] := by
  have proper : name ≠ defaultSection := by
    intro default'
    exact reads.proper (default' ▸ here)
  unfold State.modify
  rw [reads.cursect, here]
  dsimp only
  rw [if_neg proper]
  exact ⟨(values_modify same st.sections).trans (by rw [reads.sections]), reads.defaults⟩

theorem modify_self {table : Table} (name : Str) : Table.modify name id table = table := by
  refine (List.map_congr_left ?_).trans (List.map_id _)
  intro s _
  split <;> rfl

theorem readsAs_blank (reads : ReadsAs st place) : ReadsAs (st.extend []) place := by
  unfold State.extend
  cases opened : st.openOption with
  | none => exact reads
  | some name =>
      dsimp only
      have current : (st.modify (extendOption name [])).cursect = st.cursect := modify_cursect _ st
      have rest := modify_rest (extendOption name []) st
      have level : (st.modify (extendOption name [])).openOption = none ∨
          (st.modify (extendOption name [])).indentLevel = 3 := by
        rw [State.openOption, current, rest.1, rest.2.1]
        exact reads.level
      cases section' : place.2 with
      | none =>
          rw [State.openOption, reads.cursect, section'] at opened
          cases opened
      | some current' =>
          have changed := readsAs_modify reads (g := id) (values_extend name) section'
          rw [modify_self] at changed
          exact ⟨changed.1, changed.2, current.trans reads.cursect, reads.proper,
            rest.2.2.trans reads.failed, level⟩

theorem readsAs_header (reads : ReadsAs st place) {name : Str} (proper : name ≠ defaultSection) :
    ReadsAs (st.openSection name 0) (place.1.openSection name, some name) := by
  have known : place.1.any (·.1 == name) = st.sections.any (·.1 == name) := by
    rw [← reads.sections, List.any_map]
    rfl
  refine ⟨?_, reads.defaults, rfl, by simpa using proper, reads.failed, .inl ?_⟩
  · rw [State.openSection, Table.openSection, known, beq_eq_false_iff_ne.mpr proper, Bool.or_false]
    dsimp only
    split
    · exact reads.sections
    · rw [List.map_append, reads.sections]
      rfl
  · rfl

theorem optionParts_strip {text key value : Str} (parts : optionParts text = some (key, value)) :
    ∃ w, value = strip w := by
  unfold optionParts at parts
  split at parts
  next => cases parts
  next rest _ =>
    cases parts
    exact ⟨rest, rfl⟩

theorem readsAs_option (reads : ReadsAs st place) {name : Str} (here : place.2 = some name)
    {text key value : Str} (parts : optionParts text = some (key, value)) (named : key ≠ []) :
    ReadsAs (readOption db 3 text st)
      (place.1.modify name (upsert Prod.fst (db.lower key, value)), some name) := by
  rcases optionParts_strip parts with ⟨w, rfl⟩
  have moved : ReadsAs { st with indentLevel := 3 } place :=
    ⟨reads.sections, reads.defaults, reads.cursect, reads.proper, reads.failed, .inr rfl⟩
  have changed := readsAs_modify moved (fun options => values_set options (db.lower key) w) here
  have rest := modify_rest (fun options => setOption options (db.lower key) [strip w])
    { st with indentLevel := 3 }
  have current := modify_cursect (fun options => setOption options (db.lower key) [strip w])
    { st with indentLevel := 3 }
  unfold readOption
  dsimp only
  rw [parts]
  refine ⟨changed.1, changed.2, ?_, ?_, ?_, .inr rest.2.1⟩
  · exact current.trans (reads.cursect.trans here)
  · rw [← here]
    exact reads.proper
  · dsimp only
    rw [reads.failed, beq_eq_false_iff_ne.mpr named]
    rfl

theorem continues_level (reads : ReadsAs st place) (indent : indentOf line ≤ 3) :
    continues st line = false := by
  rw [continues]
  rcases reads.level with closed | deep
  · rw [closed]
    rfl
  · rw [deep, decide_eq_false (by omega), Bool.and_false]

theorem readsAs_readLine (reads : ReadsAs st place) (plain : plainLine db line ≠ .other)
    (inside : ∀ key value, plainLine db line = .option key value → place.2 ≠ none) :
    ∃ st', readLine db st line = some st' ∧
      ReadsAs st' (Table.step place (plainLine db line)) := by
  unfold plainLine at plain inside ⊢
  by_cases skipped : (isComment line || strip line == []) = true
  · rw [if_pos skipped]
    rw [Bool.or_eq_true, beq_iff_eq] at skipped
    by_cases comment : isComment line = true
    · exact ⟨st, by rw [readLine, lineKind, if_pos comment], reads⟩
    · refine ⟨st.extend [], ?_, readsAs_blank reads⟩
      rw [readLine, lineKind_blank (skipped.resolve_left comment)]
  rw [if_neg skipped] at plain inside ⊢
  rw [Bool.or_eq_true, beq_iff_eq, not_or] at skipped
  by_cases bracket : startswith (strip line) ['['] = true
  · rw [if_pos bracket] at plain ⊢
    dsimp only at plain ⊢
    split at plain
    next named =>
      rw [if_pos named]
      simp only [Bool.and_eq_true, beq_iff_eq, bne_iff_ne] at named
      obtain ⟨⟨⟨level, closing⟩, filled⟩, proper⟩ := named
      have text : strip line = '[' :: ((strip line).drop 1).dropLast ++ [']'] := by
        rcases List.isPrefixOf_iff_prefix.mp bracket with ⟨rest, whole⟩
        rcases List.isSuffixOf_iff_suffix.mp closing with ⟨front, back⟩
        rw [← whole] at back filled ⊢
        rw [List.singleton_append, List.drop_one, List.tail_cons] at filled ⊢
        rw [List.singleton_append] at back
        have some : rest ≠ [] := by
          intro empty
          rw [empty] at filled
          exact filled rfl
        have last : rest.getLast some = ']' := by
          have ends := congrArg List.getLast? back
          rw [List.getLast?_concat, List.getLast?_cons, List.getLast?_eq_some_getLast some] at ends
          exact (Option.some.inj ends).symm
        rw [List.cons_append, ← last, List.dropLast_append_getLast]
      exact ⟨_, readLine_header text level filled st, readsAs_header reads proper⟩
    next => exact absurd rfl plain
  · rw [if_neg bracket] at plain inside ⊢
    split at plain
    next level =>
      rw [if_pos level] at inside ⊢
      rw [beq_iff_eq] at level
      cases parts : optionParts (strip line) with
      | none =>
          rw [parts] at plain
          exact absurd rfl plain
      | some both =>
          rw [parts] at plain inside
          dsimp only at plain inside ⊢
          split at plain
          next => exact absurd rfl plain
          next named =>
            rw [if_neg named] at inside ⊢
            rcases Option.ne_none_iff_exists'.mp (inside _ _ rfl) with ⟨name, here⟩
            have header : sectionHeader (strip line) = none := by
              unfold sectionHeader
              split
              next rest whole =>
                rw [whole] at bracket
                exact absurd rfl bracket
              next => rfl
            have kind : lineKind st line = .option := by
              rw [lineKind, if_neg skipped.1, if_neg skipped.2,
                continues_level reads (by omega), if_neg Bool.false_ne_true, header]
              dsimp only
              rw [if_neg (by rw [reads.cursect, here]; simp)]
            refine ⟨readOption db 3 (strip line) st, ?_, ?_⟩
            · rw [readLine, kind, level]
            · rw [show place = (place.1, place.2) from rfl, here]
              exact readsAs_option reads here parts named
    next => exact absurd rfl plain

theorem readsAs_readLines {lines : List Str} (reads : ReadsAs st place)
    (plain : ∀ line ∈ lines, plainLine db line ≠ .other)
    (inside : place.2 ≠ none ∨ opens (lines.map (plainLine db)) = true) :
    ∃ st', readLines db st lines = some st' ∧
      ReadsAs st' ((lines.map (plainLine db)).foldl Table.step place) := by
  induction lines generalizing st place with
  | nil => exact ⟨st, rfl, reads⟩
  | cons line lines ih =>
      have own := plain line List.mem_cons_self
      have later := fun other member => plain other (List.mem_cons_of_mem line member)
      rw [List.map_cons] at inside
      have placed : ∀ key value, plainLine db line = .option key value → place.2 ≠ none := by
        intro key value kind
        rw [kind] at inside
        exact inside.resolve_right Bool.false_ne_true
      rcases readsAs_readLine reads own placed with ⟨next, first, step⟩
      have rest : (Table.step place (plainLine db line)).2 ≠ none ∨
          opens (lines.map (plainLine db)) = true := by
        rcases place with ⟨table, current⟩
        cases kind : plainLine db line with
        | skip =>
            rw [kind] at inside
            exact inside
        | header name => exact .inl (Option.some_ne_none name)
        | option key value =>
            rcases Option.ne_none_iff_exists'.mp (placed key value kind) with ⟨name, here⟩
            dsimp only at here
            rw [here]
            exact .inl (Option.some_ne_none name)
        | other => exact absurd kind own
      rcases ih step later rest with ⟨final, read, done⟩
      refine ⟨final, ?_, done⟩
      rw [readLines, first]
      exact read

end Reading

section Values

variable {db : CharData}

theorem lookup_mapped {A B : Type} (g : A → B) (entries : List (Str × A)) (name : Str) :
    (entries.map fun e => (e.1, g e.2)).lookup name = (entries.lookup name).map g := by
  induction entries with
  | nil => rfl
  | cons e entries ih =>
      rw [List.map_cons, List.lookup_cons, List.lookup_cons, ih]
      split <;> rfl

variable {st : State} {place : Table × Option Str}

theorem ReadsAs.names (reads : ReadsAs st place) :
    st.sections.map Prod.fst = place.1.map Prod.fst := by
  rw [← reads.sections, List.map_map]
  rfl

theorem ReadsAs.options (reads : ReadsAs st place) (name : Str) :
    place.1.options name = values ((st.sections.lookup name).getD []) := by
  rw [Table.options, ← reads.sections, lookup_mapped]
  cases st.sections.lookup name with
  | none => rfl
  | some options => rfl

theorem ReadsAs.text (reads : ReadsAs st place) : rawValue st = place.1.text := by
  funext name key
  rw [rawValue, Table.text, reads.options, values, lookup_mapped, reads.defaults,
    List.lookup_nil, Option.or_none]

end Values

section Drop

variable {n : Str}

/-- Whether a line, and those after it up to the next header, are of the section. -/
def PlainLine.within (n : Str) (before : Bool) : PlainLine → Bool
  | header name => name == n
  | _ => before

theorem PlainLine.within_option (n : Str) (before : Bool) (key value : Str) :
    (option key value).within n before = before := rfl

def dropSection (n : Str) : Bool → List PlainLine → List PlainLine
  | _, [] => []
  | skip, line :: lines =>
      if line.within n skip then dropSection n (line.within n skip) lines
      else line :: dropSection n (line.within n skip) lines

theorem opens_dropSection (n : Str) {skip : Bool} {lines : List PlainLine}
    (opened : skip = true ∨ opens lines = true) : opens (dropSection n skip lines) = true := by
  induction lines generalizing skip with
  | nil => rfl
  | cons line lines ih =>
      rw [dropSection]
      cases line with
      | header name =>
          rw [PlainLine.within]
          split
          next same => exact ih (.inl same)
          next => rfl
      | skip =>
          cases skip with
          | true => exact ih (.inl rfl)
          | false => exact ih opened
      | option key value =>
          cases skip with
          | true => exact ih (.inl rfl)
          | false => exact absurd (opened.resolve_left Bool.false_ne_true) Bool.false_ne_true
      | other =>
          cases skip with
          | true => exact ih (.inl rfl)
          | false => exact absurd (opened.resolve_left Bool.false_ne_true) Bool.false_ne_true

namespace Table

def remove (n : Str) (table : Table) : Table := table.filter (·.1 != n)

theorem remove_openSection_self (table : Table) :
    (table.openSection n).remove n = table.remove n := by
  rw [openSection]
  split
  · rfl
  · rw [remove, List.filter_append, remove]
    simp

theorem remove_openSection {name : Str} (other : name ≠ n) (table : Table) :
    (table.openSection name).remove n = (table.remove n).openSection name := by
  have known : (table.remove n).any (·.1 == name) = table.any (·.1 == name) := by
    rw [remove, List.any_filter]
    congr 1
    funext s
    by_cases same : s.1 = name
    · simp [same, other]
    · simp [same]
  rw [openSection, openSection, known]
  split
  · rfl
  · rw [remove, List.filter_append, remove]
    simp [other]

theorem remove_modify (name : Str) (f : List (Str × Str) → List (Str × Str)) (table : Table) :
    (table.modify name f).remove n = (table.remove n).modify name f := by
  rw [remove, modify, List.filter_map, modify, remove]
  congr 1
  apply List.filter_congr
  intro s _
  rw [Function.comp_apply]
  split <;> rfl

theorem remove_modify_self (f : List (Str × Str) → List (Str × Str)) (table : Table) :
    (table.modify n f).remove n = table.remove n := by
  rw [remove_modify, modify]
  refine (List.map_congr_left ?_).trans (List.map_id _)
  intro s member
  have other : s.1 ≠ n := bne_iff_ne.mp (List.mem_filter.mp member).2
  rw [if_neg other]
  rfl

end Table

/-- Without the lines of a section the table has the other ones. While the lines are skipped,
the place in the full table is in the section. -/
theorem foldl_dropSection (lines : List PlainLine) {full rest : Table × Option Str} {skip : Bool}
    (removed : rest.1 = full.1.remove n) (inside : skip = true → full.2 = some n)
    (same : skip = false → rest.2 = full.2 ∧ full.2 ≠ some n) :
    ((dropSection n skip lines).foldl Table.step rest).1 =
      ((lines.foldl Table.step full).1).remove n := by
  induction lines generalizing full rest skip with
  | nil => exact removed
  | cons line lines ih =>
      rcases full with ⟨table, current⟩
      rcases rest with ⟨table', current'⟩
      dsimp only at removed inside same
      rw [dropSection, List.foldl_cons]
      cases line with
      | header name =>
          rw [PlainLine.within]
          by_cases own : name = n
          · rw [if_pos (beq_iff_eq.mpr own), beq_iff_eq.mpr own, own]
            apply ih
            · exact removed.trans (Table.remove_openSection_self table).symm
            · exact fun _ => rfl
            · simp
          · rw [if_neg (mt beq_iff_eq.mp own), beq_eq_false_iff_ne.mpr own, List.foldl_cons]
            apply ih
            · exact (congrArg _ removed).trans (Table.remove_openSection own table).symm
            · simp
            · exact fun _ => ⟨rfl, fun here => own (Option.some.inj here)⟩
      | option key value =>
          cases skip with
          | true =>
              rw [PlainLine.within_option, if_pos rfl, inside rfl]
              apply ih
              · exact removed.trans (Table.remove_modify_self _ table).symm
              · exact fun _ => rfl
              · simp
          | false =>
              rcases same rfl with ⟨place, away⟩
              rw [PlainLine.within_option, if_neg Bool.false_ne_true, List.foldl_cons, place]
              cases current with
              | none =>
                  apply ih
                  · exact removed
                  · simp
                  · exact fun _ => ⟨rfl, away⟩
              | some name =>
                  apply ih
                  · exact (congrArg _ removed).trans (Table.remove_modify name _ table).symm
                  · simp
                  · exact fun _ => ⟨rfl, away⟩
      | skip =>
          cases skip with
          | true => exact ih removed inside same
          | false => exact ih removed inside same
      | other =>
          cases skip with
          | true => exact ih removed inside same
          | false => exact ih removed inside same

end Drop

section Renew

variable {n : Str} {new : Str → Option Str}

def renewed (new : Str → Option Str) (option : Str × Str) : Str × Str :=
  (option.1, ((new option.1).map strip).getD option.2)

def PlainLine.renew (new : Str → Option Str) : PlainLine → PlainLine
  | option key value => option key (renewed new (key, value)).2
  | line => line

def renewSection (n : Str) (new : Str → Option Str) : Bool → List PlainLine → List PlainLine
  | _, [] => []
  | inside, line :: lines =>
      (if line.within n inside then line.renew new else line) ::
        renewSection n new (line.within n inside) lines

theorem opens_renewSection (inside : Bool) (lines : List PlainLine) :
    opens (renewSection n new inside lines) = opens lines := by
  induction lines generalizing inside with
  | nil => rfl
  | cons line lines ih =>
      rw [renewSection]
      cases line with
      | header name => split <;> rfl
      | skip => split <;> exact ih _
      | option key value => split <;> rfl
      | other => split <;> rfl

namespace Table

def renew (n : Str) (new : Str → Option Str) (table : Table) : Table :=
  table.modify n (List.map (renewed new))

theorem renew_openSection (name : Str) (table : Table) :
    (table.openSection name).renew n new = (table.renew n new).openSection name := by
  have known : (table.renew n new).any (·.1 == name) = table.any (·.1 == name) := by
    rw [renew, modify, List.any_map]
    congr 1
    funext s
    rw [Function.comp_apply]
    split <;> rfl
  rw [openSection, openSection, known]
  split
  · rfl
  · rw [renew, modify, List.map_append, renew, modify]
    congr 1
    rw [List.map_singleton]
    split <;> rfl

theorem modify_modify (name : Str) (f g : List (Str × Str) → List (Str × Str)) (table : Table) :
    (table.modify name f).modify name g = table.modify name (g ∘ f) := by
  rw [modify, modify, List.map_map, modify]
  apply List.map_congr_left
  intro s _
  rw [Function.comp_apply]
  by_cases own : s.1 = name
  · rw [if_pos own, if_pos own, if_pos own]
    rfl
  · rw [if_neg own, if_neg own, if_neg own]

theorem modify_comm {a b : Str} (other : a ≠ b) (f g : List (Str × Str) → List (Str × Str))
    (table : Table) : (table.modify a f).modify b g = (table.modify b g).modify a f := by
  rw [modify, modify, List.map_map, modify, modify, List.map_map]
  apply List.map_congr_left
  intro s _
  rw [Function.comp_apply, Function.comp_apply]
  by_cases first : s.1 = a
  · have away : ¬s.1 = b := fun second => other (first.symm.trans second)
    rw [if_pos first, if_neg away, if_neg away, if_pos first]
  · rw [if_neg first]
    by_cases second : s.1 = b
    · rw [if_pos second, if_neg first]
    · rw [if_neg second, if_neg first]

theorem renew_option (key value : Str) (table : Table) :
    (table.modify n (upsert Prod.fst (key, value))).renew n new =
      (table.renew n new).modify n (upsert Prod.fst (renewed new (key, value))) := by
  rw [renew, modify_modify, renew, modify_modify]
  congr 1
  funext options
  exact @upsert_map Str (Str × Str) _ Prod.fst (renewed new) (fun _ => rfl) (key, value) options

end Table

theorem foldl_renewSection (lines : List PlainLine) {old place : Table × Option Str} {inside : Bool}
    (current : place.2 = old.2) (table : place.1 = old.1.renew n new)
    (flag : inside = (old.2 == some n)) :
    ((renewSection n new inside lines).foldl Table.step place).1 =
      ((lines.foldl Table.step old).1).renew n new := by
  induction lines generalizing old place inside with
  | nil => exact table
  | cons line lines ih =>
      rcases old with ⟨before, name⟩
      rcases place with ⟨after, name'⟩
      dsimp only at current table flag
      subst current table
      rw [renewSection, List.foldl_cons, List.foldl_cons]
      cases line with
      | header other =>
          have kept : (if (PlainLine.header other).within n inside = true then
              (PlainLine.header other).renew new else .header other) = .header other := by
            split <;> rfl
          rw [kept]
          exact ih rfl (Table.renew_openSection other before).symm rfl
      | option key value =>
          cases name' with
          | none =>
              have kept : (if (PlainLine.option key value).within n inside = true then
                  (PlainLine.option key value).renew new else .option key value) =
                    .option key value := by
                rw [PlainLine.within_option, flag]
                rfl
              rw [kept]
              exact ih rfl rfl flag
          | some other =>
              rw [PlainLine.within_option, flag]
              by_cases own : other = n
              · subst own
                rw [if_pos (beq_self_eq_true (some other))]
                exact ih rfl (Table.renew_option key value before).symm rfl
              · have away : ¬(some other == some n) = true := by
                  rw [beq_iff_eq]
                  exact fun same => own (Option.some.inj same)
                rw [if_neg away]
                exact ih rfl (Table.modify_comm own _ _ before).symm rfl
      | skip =>
          have kept : (if PlainLine.skip.within n inside = true then
              PlainLine.skip.renew new else .skip) = .skip := by
            split <;> rfl
          rw [kept]
          exact ih rfl rfl flag
      | other =>
          have kept : (if PlainLine.other.within n inside = true then
              PlainLine.other.renew new else .other) = .other := by
            split <;> rfl
          rw [kept]
          exact ih rfl rfl flag

end Renew

end SmolNas.Py.ConfigParser
