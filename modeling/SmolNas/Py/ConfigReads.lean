import SmolNas.Py.ConfigWithout

/-! What the parser makes of the lines of a file one after the other, and what a change of
the current section does to the values of options. -/

namespace SmolNas.Py.ConfigParser

variable {db : CharData}

section Lines

theorem isComment_chomp (line : Str) : isComment (chomp line) = isComment line := by
  rw [isComment, strip_chomp, ← isComment]

theorem indentOf_chomp {line : Str} (filled : strip line ≠ []) :
    indentOf (chomp line) = indentOf line := by
  unfold chomp
  split
  next last =>
    rcases List.getLast?_eq_some_iff.mp last with ⟨w, whole⟩
    rw [whole, List.dropLast_concat, indentOf, indentOf, List.takeWhile_append]
    rw [whole, strip_concat (by decide)] at filled
    rw [if_neg]
    intro all
    apply filled
    have blank := List.takeWhile_eq_self_iff.mp ((List.takeWhile_prefix _).eq_of_length all)
    rw [strip, show lstrip w = [] from List.dropWhile_eq_nil_iff.mpr blank]
    rfl
  next => rfl

theorem lineKind_chomp (st : State) (line : Str) : lineKind st (chomp line) = lineKind st line := by
  unfold lineKind
  rw [isComment_chomp, strip_chomp]
  by_cases blank : strip line = []
  · rw [if_pos blank, if_pos blank]
  · rw [continues, continues, indentOf_chomp blank]

theorem lineKind_blank {line : Str} (blank : strip line = []) (st : State) :
    lineKind st line = .blank := by
  have plain : isComment line = false := by
    rw [isComment, blank]
    rfl
  rw [lineKind, plain, if_neg Bool.false_ne_true, if_pos blank]

theorem readLine_chomp (st : State) (line : Str) :
    readLine db st (chomp line) = readLine db st line := by
  unfold readLine
  rw [lineKind_chomp, strip_chomp]
  by_cases blank : strip line = []
  · rw [lineKind_blank blank]
  · rw [indentOf_chomp blank]

theorem readLines_append (st : State) (a b : List Str) :
    readLines db st (a ++ b) = (readLines db st a).bind fun st => readLines db st b := by
  induction a generalizing st with
  | nil => rfl
  | cons line a ih =>
      rw [List.cons_append, readLines, readLines, Option.bind_assoc]
      congr 1
      funext next
      exact ih next

theorem readLines_chomp (st : State) (lines : List Str) :
    readLines db st (lines.map chomp) = readLines db st lines := by
  induction lines generalizing st with
  | nil => rfl
  | cons line lines ih =>
      rw [List.map_cons, readLines, readLines, readLine_chomp]
      congr 1
      funext next
      exact ih next

theorem readLine_header {line name : Str} (text : strip line = '[' :: name ++ [']'])
    (flush : indentOf line = 0) (some : name ≠ []) (st : State) :
    readLine db st line = .some (st.openSection name 0) := by
  have comment : isComment line = false := by
    rw [isComment, text]
    rfl
  have filled : strip line ≠ [] := by
    rw [text]
    simp
  have level : continues st line = false := by
    rw [continues, flush, decide_eq_false (Nat.not_lt_zero _), Bool.and_false]
  have header : sectionHeader (strip line) = .some name := by
    rw [text, List.cons_append, sectionHeader, List.reverse_concat,
      List.dropWhile_cons_of_neg (by decide), List.tail_cons,
      List.reverse_reverse, if_neg some]
  rw [readLine, lineKind, comment, if_neg Bool.false_ne_true, if_neg filled, level,
    if_neg Bool.false_ne_true, header]
  dsimp only
  rw [flush]

end Lines

section Values

theorem joined_blank (lines : List Str) : joined (lines ++ [[]]) = joined lines := by
  cases lines with
  | nil => rfl
  | cons line lines =>
      have feed : join ['\n'] ((line :: lines) ++ [[]]) = join ['\n'] (line :: lines) ++ ['\n'] :=
        join_append ['\n'] line lines [] []
      rw [joined, feed, rstrip, List.rdropWhile_concat_pos _ _ _ (by decide)]
      rfl

theorem joined_strip (value : Str) : joined [strip value] = strip value := by
  have single : join ['\n'] [strip value] = strip value := by simp [join]
  rw [joined, single]
  exact List.rdropWhile_idempotent isSpace (lstrip value)

theorem mem_of_lookup {A : Type} {entries : List (Str × A)} {key : Str} {value : A}
    (found : entries.lookup key = some value) : (key, value) ∈ entries := by
  rcases List.lookup_eq_some_iff.mp found with ⟨front, back, whole, -⟩
  rw [whole]
  simp

theorem lookup_change {A : Type} (entries : List (Str × A)) (name key : Str) (f : A → A) :
    (entries.map fun e => if e.1 = name then (e.1, f e.2) else e).lookup key =
      if key = name then (entries.lookup key).map f else entries.lookup key := by
  induction entries with
  | nil => split <;> rfl
  | cons e entries ih =>
      rw [List.map_cons]
      by_cases same : key = e.1
      · have first : (if e.1 = name then (e.1, f e.2) else e) =
            (key, if key = name then f e.2 else e.2) := by
          rw [← same]
          split
          · rfl
          · rw [same]
        rw [first, List.lookup_cons_self, List.lookup_cons, beq_iff_eq.mpr same]
        split <;> rfl
      · have other : (if e.1 = name then (e.1, f e.2) else e).1 = e.1 := by split <;> rfl
        rw [List.lookup_cons, other, beq_eq_false_iff_ne.mpr same, ih, List.lookup_cons,
          beq_eq_false_iff_ne.mpr same]

theorem lookup_extendOption (options : Options) (name line key : Str) :
    (extendOption name line options).lookup key =
      if key = name then (options.lookup key).map (· ++ [line]) else options.lookup key := by
  rw [← lookup_change, extendOption]
  congr 1
  apply List.map_congr_left
  intro e _
  split
  next same => rw [same]
  next => rfl

theorem lookup_setOption (options : Options) (name key : Str) (value : List Str) :
    (setOption options name value).lookup key =
      if key = name then some value else options.lookup key := by
  rw [setOption]
  split
  next present =>
    have changed : (options.map fun o => if o.1 = name then (name, value) else o) =
        options.map fun o => if o.1 = name then (o.1, value) else o := by
      apply List.map_congr_left
      intro o _
      split
      next same => rw [same]
      next => rfl
    rw [changed, lookup_change options name key fun _ => value]
    split
    next same =>
      rcases List.any_eq_true.mp present with ⟨o, member, named⟩
      have found : (options.lookup key).isSome = true := by
        rw [List.lookup_isSome_iff]
        exact ⟨o, member, by rw [same, beq_iff_eq.mp named, beq_self_eq_true]⟩
      rcases Option.isSome_iff_exists.mp found with ⟨old, whole⟩
      rw [whole, Option.map_some]
    next => rfl
  next absent =>
    rw [List.lookup_append]
    by_cases same : key = name
    · have none : options.lookup key = none := by
        rw [List.lookup_eq_none_iff]
        intro o member
        rw [bne_iff_ne]
        intro own
        exact absent (List.any_eq_true.mpr ⟨o, member, by rw [← own, same, beq_self_eq_true]⟩)
      rw [none, same, if_pos rfl, List.lookup_cons_self, Option.none_or]
    · have last : List.lookup key [(name, value)] = none := by
        rw [List.lookup_cons, beq_eq_false_iff_ne.mpr same]
        rfl
      rw [if_neg same, last, Option.or_none]

theorem modify_lookup (f : Options → Options) (st : State) (section' : Str) :
    (st.modify f).sections.lookup section' =
      if st.cursect = some section' ∧ section' ≠ defaultSection then
        (st.sections.lookup section').map f
      else st.sections.lookup section' := by
  unfold State.modify
  cases st.cursect with
  | none => simp
  | some name =>
      dsimp only
      by_cases own : name = section'
      · subst own
        by_cases default' : name = defaultSection
        · simp [default']
        · rw [if_neg default', if_pos ⟨rfl, default'⟩]
          dsimp only
          rw [lookup_change, if_pos rfl]
      · have away : ¬(some name = some section' ∧ section' ≠ defaultSection) :=
          fun both => own (Option.some.inj both.1)
        rw [if_neg away]
        split
        · rfl
        · dsimp only
          rw [lookup_change, if_neg (Ne.symm own)]

theorem modify_defaults (f : Options → Options) (st : State) :
    (st.modify f).defaults =
      if st.cursect = some defaultSection then f st.defaults else st.defaults := by
  unfold State.modify
  cases st.cursect with
  | none => simp
  | some name =>
      dsimp only
      by_cases default' : name = defaultSection
      · rw [if_pos default', default', if_pos rfl]
      · rw [if_neg default', if_neg (by simp [default'])]

theorem modify_names (f : Options → Options) (st : State) :
    (st.modify f).sections.map Prod.fst = st.sections.map Prod.fst := by
  unfold State.modify
  split
  · rfl
  · split
    · rfl
    · rw [List.map_map]
      apply List.map_congr_left
      intro s _
      rw [Function.comp_apply]
      split <;> rfl

theorem rawValue_modify {f : Options → Options}
    (same : ∀ options key, ((f options).lookup key).map joined = (options.lookup key).map joined)
    (st : State) : rawValue (st.modify f) = rawValue st := by
  have empty (key : Str) : ((f []).lookup key).map joined = none := same [] key
  funext section' key
  rw [rawValue, rawValue, modify_lookup, modify_defaults, Option.map_or, Option.map_or]
  congr 1
  · split
    · cases st.sections.lookup section' with
      | none => rfl
      | some options => exact same options key
    · rfl
  · split
    · exact same st.defaults key
    · rfl

theorem rawValue_extend_blank (st : State) : rawValue (st.extend []) = rawValue st := by
  unfold State.extend
  split
  · rfl
  · apply rawValue_modify
    intro options key
    rw [lookup_extendOption]
    split
    · rw [Option.map_map]
      congr 1
      funext lines
      exact joined_blank lines
    · rfl

end Values

end SmolNas.Py.ConfigParser
