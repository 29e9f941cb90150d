import SmolNas.Py.Str

/-! Lines of Python text: the newline translation of a file opened in text mode,
`readlines`, and `str.splitlines`. -/

namespace SmolNas.Py

/-- Writes every line boundary as one line feed; `\r\n` is one boundary. The
flag says that the character before was a carriage return. -/
def newlines (isBreak : Char → Bool) : Bool → Str → Str
  | _, [] => []
  | afterReturn, c :: s =>
      if c = '\n' ∧ afterReturn = true then newlines isBreak false s
      else if isBreak c then '\n' :: newlines isBreak (c == '\r') s
      else c :: newlines isBreak false s

/-- Cuts a text after every line feed. -/
def keepends : Str → List Str
  | [] => []
  | c :: s =>
      if c = '\n' then [c] :: keepends s
      else
        match keepends s with
        | [] => [[c]]
        | line :: rest => (c :: line) :: rest

/-- The line boundaries of a file in text mode. -/
def isNewline (c : Char) : Bool := c == '\n' || c == '\r'

theorem all_plain {s : Str} :
    s.all (!isNewline ·) = true ↔ ∀ c ∈ s, isNewline c = false := by
  simp only [List.all_eq_true, Bool.not_eq_true']

/-- The line boundaries of `str.splitlines`. -/
def isLineBreak (c : Char) : Bool :=
  let n := c.toNat
  (10 ≤ n && n ≤ 13) || (28 ≤ n && n ≤ 30) || n == 0x85 || n == 0x2028 || n == 0x2029

/-- `f.readlines()` of a file with this content, each line with its line feed. -/
def readlines (content : Str) : List Str := keepends (newlines isNewline false content)

def chomp (line : Str) : Str :=
  if line.getLast? = some '\n' then line.dropLast else line

/-- `s.splitlines()`. -/
def splitlines (s : Str) : List Str :=
  (keepends (newlines isLineBreak false s)).map chomp

section Newlines

variable {isBreak : Char → Bool}

/-- Whether the character after this text is read with a carriage return before it. -/
def endsReturn : Bool → Str → Bool
  | afterReturn, [] => afterReturn
  | _, c :: s => endsReturn (c == '\r') s

theorem endsReturn_concat (afterReturn : Bool) (s : Str) (c : Char) :
    endsReturn afterReturn (s ++ [c]) = (c == '\r') := by
  induction s generalizing afterReturn with
  | nil => rfl
  | cons d s ih => exact ih (d == '\r')

theorem newlines_append (returned : isBreak '\r' = true) (afterReturn : Bool) (a b : Str) :
    newlines isBreak afterReturn (a ++ b) =
      newlines isBreak afterReturn a ++ newlines isBreak (endsReturn afterReturn a) b := by
  induction a generalizing afterReturn with
  | nil => rfl
  | cons c a ih =>
      simp only [List.cons_append, newlines, endsReturn]
      split
      · rename_i skipped
        rw [ih, skipped.1]
        rfl
      · split
        · rw [ih, List.cons_append]
        · rename_i plain
          have other : (c == '\r') = false := by
            rw [beq_eq_false_iff_ne]
            intro equal
            subst equal
            exact plain returned
          rw [ih, other, List.cons_append]

theorem newlines_plain (afterReturn : Bool) (s : Str) (plain : ∀ c ∈ s, isBreak c = false)
    (feed : isBreak '\n' = true) : newlines isBreak afterReturn s = s := by
  induction s generalizing afterReturn with
  | nil => rfl
  | cons c s ih =>
      have head := plain c (by simp)
      have other : c ≠ '\n' := by
        intro equal
        subst equal
        simp [feed] at head
      have tail := ih false (fun d member => plain d (by simp [member]))
      simp [newlines, other, head, tail]

end Newlines

theorem flatten_keepends (s : Str) : (keepends s).flatten = s := by
  induction s with
  | nil => rfl
  | cons c s ih =>
      simp only [keepends]
      split
      · simp [ih]
      · split
        · rename_i nothing
          rw [nothing] at ih
          simp [← ih]
        · rename_i line rest lines
          rw [lines] at ih
          simp [← ih]

def Complete (line : Str) : Prop := ∃ w, line = w ++ ['\n'] ∧ '\n' ∉ w

theorem keepends_complete (line s : Str) (complete : Complete line) :
    keepends (line ++ s) = line :: keepends s := by
  obtain ⟨w, rfl, free⟩ := complete
  induction w with
  | nil => simp [keepends]
  | cons c w ih =>
      have other : c ≠ '\n' := by
        intro equal
        subst equal
        simp at free
      have tail := ih (by intro member; exact free (by simp [member]))
      simp only [List.cons_append, keepends, other, if_false]
      rw [tail]

theorem keepends_plain (w : Str) (free : '\n' ∉ w) (nonempty : w ≠ []) : keepends w = [w] := by
  induction w with
  | nil => exact absurd rfl nonempty
  | cons c w ih =>
      have other : c ≠ '\n' := by
        intro equal
        subst equal
        simp at free
      simp only [keepends, other, if_false]
      cases w with
      | nil => rfl
      | cons d w =>
          rw [ih (by intro member; exact free (by simp [member])) (by simp)]

theorem chomp_concat (w : Str) : chomp (w ++ ['\n']) = w := by
  unfold chomp
  rw [if_pos List.getLast?_concat, List.dropLast_concat]

theorem strip_chomp (line : Str) : strip (chomp line) = strip line := by
  unfold chomp
  split
  · rename_i last
    obtain ⟨w, rfl⟩ := List.getLast?_eq_some_iff.mp last
    rw [List.dropLast_concat, strip_concat (by decide)]
  · rfl

/-- What `readlines` returns: complete lines, and perhaps a last one that the
file does not end. -/
structure Lined (lines : List Str) : Prop where
  shape : ∃ front tail, lines = front ++ tail ∧ (∀ line ∈ front, Complete line) ∧
    (tail = [] ∨ ∃ w, tail = [w] ∧ w ≠ [] ∧ '\n' ∉ w)

theorem lined_nil : Lined [] := ⟨⟨[], [], rfl, by simp, Or.inl rfl⟩⟩

theorem lined_cons {line : Str} {lines : List Str} (complete : Complete line)
    (lined : Lined lines) : Lined (line :: lines) := by
  obtain ⟨front, tail, rfl, allComplete, last⟩ := lined.shape
  refine ⟨⟨line :: front, tail, rfl, ?_, last⟩⟩
  intro other member
  rcases List.mem_cons.mp member with rfl | member
  · exact complete
  · exact allComplete other member

theorem lined_keepends (s : Str) : Lined (keepends s) := by
  induction s with
  | nil => exact lined_nil
  | cons c s ih =>
      simp only [keepends]
      split
      · rename_i feed
        exact lined_cons ⟨[], by simp [feed], by simp⟩ ih
      · rename_i other
        split
        · exact ⟨⟨[], [[c]], rfl, by simp, Or.inr ⟨[c], rfl, by simp, by simp [Ne.symm other]⟩⟩⟩
        · rename_i line rest lines
          rw [lines] at ih
          obtain ⟨front, tail, equality, allComplete, last⟩ := ih.shape
          cases front with
          | nil =>
              rcases last with rfl | ⟨w, rfl, nonempty, free⟩
              · simp at equality
              · obtain ⟨rfl, rfl⟩ : line = w ∧ rest = [] := by simpa using equality
                exact ⟨⟨[], [c :: line], rfl, by simp,
                  Or.inr ⟨c :: line, rfl, by simp, by simp [free, Ne.symm other]⟩⟩⟩
          | cons first front =>
              obtain ⟨rfl, rfl⟩ := List.cons.inj equality
              obtain ⟨w, rfl, free⟩ := allComplete line (by simp)
              refine lined_cons ⟨c :: w, rfl, by simp [free, Ne.symm other]⟩ ⟨⟨front, tail, rfl, ?_, last⟩⟩
              intro line member
              exact allComplete line (by simp [member])

theorem splitlines_feedless (s : Str) : ∀ line ∈ splitlines s, '\n' ∉ line := by
  intro line member
  obtain ⟨kept, inside, same⟩ := List.mem_map.mp member
  rw [← same]
  obtain ⟨front, tail, whole, complete, last⟩ :=
    (lined_keepends (newlines isLineBreak false s)).shape
  rw [whole, List.mem_append] at inside
  rcases inside with first | final
  · obtain ⟨w, parts, free⟩ := complete kept first
    rw [parts, chomp_concat]
    exact free
  · rcases last with none | ⟨w, only, -, free⟩
    · rw [none] at final
      cases final
    · rw [only, List.mem_singleton] at final
      rw [final, chomp, if_neg fun feed => free (List.mem_of_getLast? feed)]
      exact free

theorem keepends_flatten {lines : List Str} (lined : Lined lines) :
    keepends lines.flatten = lines := by
  obtain ⟨front, tail, rfl, allComplete, last⟩ := lined.shape
  induction front with
  | nil =>
      rcases last with rfl | ⟨w, rfl, nonempty, free⟩
      · rfl
      · simpa using keepends_plain w free nonempty
  | cons line front ih =>
      have later := ih ⟨⟨front, tail, rfl, fun l member => allComplete l (by simp [member]), last⟩⟩
        (fun l member => allComplete l (by simp [member]))
      rw [List.cons_append, List.flatten_cons,
        keepends_complete line _ (allComplete line (by simp)), later]

theorem keepends_length_one (w : Str) :
    (keepends (w ++ ['\n'])).length = 1 ↔ '\n' ∉ w := by
  constructor
  · intro length
    obtain ⟨line, lines⟩ := List.length_eq_one_iff.mp length
    have whole : line = w ++ ['\n'] := by
      have joined := flatten_keepends (w ++ ['\n'])
      rw [lines] at joined
      simpa using joined
    obtain ⟨front, tail, equality, complete, last⟩ := (lines ▸ lined_keepends (w ++ ['\n'])).shape
    rcases last with rfl | ⟨v, rfl, -, free⟩
    · rw [List.append_nil] at equality
      obtain ⟨v, ending, free⟩ := complete line (by rw [← equality]; simp)
      rw [whole] at ending
      rwa [List.append_inj_left' ending rfl]
    · have same : line = v := by
        cases front with
        | nil => simpa using equality
        | cons first front => simp at equality
      rw [← same, whole] at free
      simp at free
  · intro free
    have lines := keepends_complete (w ++ ['\n']) [] ⟨w, rfl, free⟩
    rw [List.append_nil] at lines
    rw [lines]
    rfl

theorem Lined.sublist {lines kept : List Str} (lined : Lined lines)
    (sub : kept.Sublist lines) : Lined kept := by
  obtain ⟨front, tail, rfl, allComplete, last⟩ := lined.shape
  obtain ⟨front', tail', rfl, subFront, subTail⟩ := List.sublist_append_iff.mp sub
  refine ⟨⟨front', tail', rfl, fun l member => allComplete l (subFront.subset member), ?_⟩⟩
  rcases last with rfl | ⟨w, rfl, nonempty, free⟩
  · exact Or.inl (List.sublist_nil.mp subTail)
  · rcases List.sublist_singleton.mp subTail with rfl | rfl
    · exact Or.inl rfl
    · exact Or.inr ⟨w, rfl, nonempty, free⟩

end SmolNas.Py
