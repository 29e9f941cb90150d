import SmolNas.Py.Lines

/-! Reading back what was written to a text file, line by line. -/

namespace SmolNas.Py

/-- The lines of a file without their line feeds. -/
def texts (content : Str) : List Str := (readlines content).map chomp

def Terminated (s : Str) : Prop := s = [] ∨ ∃ w, s = w ++ ['\n']

theorem terminated_concat (w : Str) : Terminated (w ++ ['\n']) := .inr ⟨w, rfl⟩

theorem keepends_ne_nil {c : Char} {s : Str} : keepends (c :: s) ≠ [] := by
  intro empty
  have joined := flatten_keepends (c :: s)
  rw [empty] at joined
  cases joined

theorem keepends_append {x : Str} (terminated : Terminated x) (y : Str) :
    keepends (x ++ y) = keepends x ++ keepends y := by
  rcases terminated with rfl | ⟨w, rfl⟩
  · rfl
  induction w with
  | nil => simp [keepends]
  | cons c w ih =>
      rw [List.append_assoc, List.singleton_append] at ih
      simp only [List.cons_append, List.append_assoc, List.nil_append, keepends]
      split
      · rw [ih]
        rfl
      · rw [ih]
        cases lines : keepends (w ++ ['\n']) with
        | nil =>
            exfalso
            cases w with
            | nil => exact keepends_ne_nil lines
            | cons d w => exact keepends_ne_nil lines
        | cons line rest => rfl

section Newline

theorem newlines_noReturn (afterReturn : Bool) (s : Str) :
    '\r' ∉ newlines isNewline afterReturn s := by
  induction s generalizing afterReturn with
  | nil => simp [newlines]
  | cons c s ih =>
      simp only [newlines]
      split
      · exact ih false
      · split
        · simp [ih]
        · rename_i plain
          have other : '\r' ≠ c := by
            intro equal
            subst equal
            exact plain rfl
          simp [ih, other]

theorem newlines_feeds (s : Str) (free : '\r' ∉ s) : newlines isNewline false s = s := by
  induction s with
  | nil => rfl
  | cons c s ih =>
      have other : c ≠ '\r' := by
        intro equal
        subst equal
        simp at free
      have tail := ih fun member => free (by simp [member])
      have after : (c == '\r') = false := by simpa using other
      simp only [newlines, Bool.false_eq_true, and_false, if_false, after, tail]
      split
      · rename_i feed
        simp only [isNewline, after, Bool.or_false, beq_iff_eq] at feed
        rw [feed]
      · rfl

theorem newlines_concat (w b : Str) :
    newlines isNewline false (w ++ ['\n'] ++ b) =
      newlines isNewline false (w ++ ['\n']) ++ newlines isNewline false b := by
  rw [newlines_append rfl, endsReturn_concat]
  rfl

theorem newlines_feed (w : Str) :
    newlines isNewline false (w ++ ['\n']) = newlines isNewline false w ++ ['\n'] ∨
      (newlines isNewline false (w ++ ['\n']) = newlines isNewline false w ∧
        ∃ v, newlines isNewline false w = v ++ ['\n']) := by
  rw [newlines_append rfl]
  cases w using List.reverseRecOn with
  | nil => exact .inl rfl
  | append_singleton v c =>
      rw [endsReturn_concat]
      by_cases returned : c = '\r'
      · right
        rw [returned, newlines_append rfl]
        refine ⟨List.append_nil _, newlines isNewline false v, ?_⟩
        cases endsReturn false v <;> rfl
      · left
        have after : (c == '\r') = false := by simpa using returned
        rw [after]
        rfl

theorem terminated_newlines (w : Str) : Terminated (newlines isNewline false (w ++ ['\n'])) := by
  rcases newlines_feed w with feed | ⟨same, v, ending⟩
  · rw [feed]
    exact terminated_concat _
  · rw [same, ending]
    exact terminated_concat _

end Newline

theorem readlines_append {a : Str} (terminated : Terminated a) (b : Str) :
    readlines (a ++ b) = readlines a ++ readlines b := by
  rcases terminated with rfl | ⟨w, rfl⟩
  · rfl
  rw [readlines, newlines_concat, keepends_append (terminated_newlines w)]
  rfl

theorem chomp_plain {w : Str} (free : '\n' ∉ w) : chomp w = w := by
  unfold chomp
  rw [if_neg]
  intro last
  exact free (List.mem_of_getLast? last)

theorem readlines_line {content line : Str} (member : line ∈ readlines content) :
    readlines line = [line] := by
  have whole := lined_keepends (newlines isNewline false content)
  have free : '\r' ∉ line := by
    intro inside
    apply newlines_noReturn false content
    rw [← flatten_keepends (newlines isNewline false content)]
    exact List.mem_flatten.mpr ⟨line, member, inside⟩
  rw [readlines, newlines_feeds line free]
  have single : Lined [line] := whole.sublist (List.singleton_sublist.mpr member)
  simpa using keepends_flatten single

theorem texts_line {content line : Str} (member : line ∈ readlines content) :
    texts line = [chomp line] := by
  rw [texts, readlines_line member]
  rfl

def AllTerminated : List Str → Prop
  | [] => True
  | [_] => True
  | s :: rest => Terminated s ∧ AllTerminated rest

theorem readlines_flatten {parts : List Str} (terminated : AllTerminated parts) :
    readlines parts.flatten = parts.flatMap readlines := by
  induction parts with
  | nil => rfl
  | cons s rest ih =>
      cases rest with
      | nil => simp
      | cons t rest =>
          rw [List.flatten_cons, readlines_append terminated.1, ih terminated.2]
          rfl

theorem texts_flatten {parts : List Str} (terminated : AllTerminated parts) :
    texts parts.flatten = parts.flatMap texts := by
  rw [texts, readlines_flatten terminated, List.map_flatMap]
  rfl

theorem allTerminated_readlines (content : Str) : AllTerminated (readlines content) := by
  obtain ⟨front, tail, lines, complete, last⟩ :=
    (lined_keepends (newlines isNewline false content)).shape
  rw [readlines, lines]
  clear lines
  induction front with
  | nil => rcases last with rfl | ⟨w, rfl, -, -⟩ <;> trivial
  | cons line front ih =>
      have later := ih fun other member => complete other (by simp [member])
      obtain ⟨w, text, -⟩ := complete line (by simp)
      rw [List.cons_append]
      cases rest : front ++ tail with
      | nil => trivial
      | cons next rest' =>
          rw [rest] at later
          exact ⟨.inr ⟨w, text⟩, later⟩

theorem texts_append {a : Str} (terminated : Terminated a) (b : Str) :
    texts (a ++ b) = texts a ++ texts b := by
  rw [texts, readlines_append terminated, List.map_append]
  rfl

private theorem keepends_feed (x : Str) :
    (keepends (x ++ ['\n'])).map chomp = (keepends x).map chomp ∨
      (keepends (x ++ ['\n'])).map chomp = (keepends x).map chomp ++ [[]] := by
  obtain ⟨front, tail, lines, complete, last⟩ := (lined_keepends x).shape
  have joined := flatten_keepends x
  rw [lines] at joined
  rcases last with rfl | ⟨w, rfl, -, free⟩
  · right
    have lined : Lined (front ++ [['\n']]) := by
      refine ⟨⟨front ++ [['\n']], [], by simp, ?_, .inl rfl⟩⟩
      intro line member
      rcases List.mem_append.mp member with old | new
      · exact complete line old
      · exact ⟨[], by simpa using new, by simp⟩
    have again := keepends_flatten lined
    rw [List.append_nil] at joined lines
    rw [List.flatten_append, joined] at again
    rw [show x ++ ['\n'] = x ++ [['\n']].flatten from rfl, again, lines, List.map_append]
    rfl
  · left
    have lined : Lined (front ++ [w ++ ['\n']]) := by
      refine ⟨⟨front ++ [w ++ ['\n']], [], by simp, ?_, .inl rfl⟩⟩
      intro line member
      rcases List.mem_append.mp member with old | new
      · exact complete line old
      · exact ⟨w, by simpa using new, free⟩
    have again := keepends_flatten lined
    have whole : (front ++ [w ++ ['\n']]).flatten = x ++ ['\n'] := by
      rw [← joined]
      simp
    rw [whole] at again
    rw [again, lines, List.map_append, List.map_append]
    simp [chomp_concat, chomp_plain free]

theorem texts_feed (content : Str) :
    texts (content ++ ['\n']) = texts content ∨
      texts (content ++ ['\n']) = texts content ++ [[]] := by
  unfold texts readlines
  rcases newlines_feed content with feed | ⟨same, -⟩
  · rw [feed]
    exact keepends_feed _
  · left
    rw [same]

theorem Lined.ne_nil {lines : List Str} (lined : Lined lines) {line : Str}
    (member : line ∈ lines) : line ≠ [] := by
  obtain ⟨front, tail, rfl, complete, last⟩ := lined.shape
  rcases List.mem_append.mp member with inside | final
  · obtain ⟨w, rfl, -⟩ := complete line inside
    simp
  · rcases last with rfl | ⟨w, rfl, filled, -⟩
    · cases final
    · rwa [List.mem_singleton.mp final]

section Lead

variable {p : Str} (plain : ∀ c ∈ p, isNewline c = false)

include plain

theorem newlines_lead (s : Str) :
    newlines isNewline false (p ++ s) = p ++ newlines isNewline false s := by
  have kept : endsReturn false p = false := by
    cases p using List.reverseRecOn with
    | nil => rfl
    | append_singleton p c =>
        rw [endsReturn_concat, beq_eq_false_iff_ne]
        intro equal
        subst equal
        exact absurd (plain '\r' (by simp)) (by decide)
  rw [newlines_append rfl, newlines_plain false p plain rfl, kept]

theorem keepends_lead {x line : Str} {rest : List Str} (lines : keepends x = line :: rest) :
    keepends (p ++ x) = (p ++ line) :: rest := by
  induction p with
  | nil => exact lines
  | cons c p ih =>
      have other : c ≠ '\n' := by
        intro equal
        subst equal
        exact absurd (plain '\n' (by simp)) (by decide)
      rw [List.cons_append, keepends, if_neg other, ih fun d member => plain d (by simp [member])]
      rfl

theorem readlines_single : readlines (p ++ ['\n']) = [p ++ ['\n']] := by
  rw [readlines, newlines_lead plain]
  exact keepends_lead plain rfl

theorem texts_single : texts (p ++ ['\n']) = [p] := by
  rw [texts, readlines_single plain, List.map_singleton, chomp_concat]

theorem texts_lead (s : Str) (some : s ≠ []) :
    ∃ first tail, texts s = first :: tail ∧ texts (p ++ s) = (p ++ first) :: tail := by
  obtain ⟨c, s, rfl⟩ := List.exists_cons_of_ne_nil some
  have nonempty : newlines isNewline false (c :: s) ≠ [] := by
    simp only [newlines, Bool.false_eq_true, and_false, if_false]
    split <;> simp
  obtain ⟨d, x, text⟩ := List.exists_cons_of_ne_nil nonempty
  obtain ⟨line, rest, lines⟩ := List.exists_cons_of_ne_nil (keepends_ne_nil (c := d) (s := x))
  refine ⟨chomp line, rest.map chomp, ?_, ?_⟩
  · rw [texts, readlines, text, lines]
    rfl
  · rw [texts, readlines, newlines_lead plain, text, keepends_lead plain lines, List.map_cons]
    have filled : line ≠ [] := (lined_keepends _).ne_nil (by rw [lines]; simp)
    congr 1
    unfold chomp
    rw [List.getLast?_append_of_ne_nil p filled]
    split
    · rw [List.dropLast_append_of_ne_nil filled]
    · rfl

end Lead

theorem readlines_block {block : List Str} (plain : ∀ w ∈ block, ∀ c ∈ w, isNewline c = false) :
    readlines (block.map (· ++ ['\n'])).flatten = block.map (· ++ ['\n']) := by
  induction block with
  | nil => rfl
  | cons w block ih =>
      have own := plain w List.mem_cons_self
      have later := ih fun other member => plain other (List.mem_cons_of_mem _ member)
      rw [List.map_cons, List.flatten_cons, readlines_append (terminated_concat w),
        readlines_single own, later, List.singleton_append]

theorem Lined.chomp_free {lines : List Str} (lined : Lined lines) {line : Str}
    (member : line ∈ lines) : '\n' ∉ chomp line := by
  obtain ⟨front, tail, rfl, complete, last⟩ := lined.shape
  rcases List.mem_append.mp member with inside | final
  · obtain ⟨w, rfl, free⟩ := complete line inside
    rwa [chomp_concat]
  · rcases last with rfl | ⟨w, rfl, -, free⟩
    · cases final
    · rw [List.mem_singleton.mp final, chomp_plain free]
      exact free

theorem texts_plain {content text : Str} (member : text ∈ texts content) :
    ∀ c ∈ text, isNewline c = false := by
  obtain ⟨line, source, rfl⟩ := List.mem_map.mp member
  intro c inside
  have kept : c ∈ line := by
    unfold chomp at inside
    split at inside
    · exact List.mem_of_mem_dropLast inside
    · exact inside
  have noFeed := (lined_keepends _).chomp_free source
  have noReturn : '\r' ∉ newlines isNewline false content := newlines_noReturn false content
  rw [← flatten_keepends (newlines isNewline false content)] at noReturn
  simp only [isNewline, Bool.or_eq_false_iff, beq_eq_false_iff_ne]
  constructor
  · intro equal
    subst equal
    exact noFeed inside
  · intro equal
    subst equal
    exact noReturn (List.mem_flatten.mpr ⟨line, source, kept⟩)

end SmolNas.Py
