import SmolNas.Py.Str

/-! `s.split()`: the words of a text between blanks. -/

namespace SmolNas.Py

/-- `s.split()` -/
def words (s : Str) : List Str := (s.splitOnP isSpace).filter fun word => !word.isEmpty

def isWordText (word : Str) : Bool := word != [] && word.all (!isSpace ·)

section Words

theorem isWordText_iff {word : Str} :
    isWordText word = true ↔ word ≠ [] ∧ ∀ c ∈ word, isSpace c = false := by
  simp only [isWordText, Bool.and_eq_true, bne_iff_ne, List.all_eq_true, Bool.not_eq_true']

theorem words_append (x y : Str) {c : Char} (space : isSpace c = true) :
    words (x ++ c :: y) = words x ++ words y := by
  rw [words, List.splitOnP_append_cons x y space, List.filter_append]
  rfl

theorem words_cons (s : Str) {c : Char} (space : isSpace c = true) : words (c :: s) = words s :=
  words_append [] s space

theorem words_single {word : Str} (proper : isWordText word = true) : words word = [word] := by
  rcases isWordText_iff.mp proper with ⟨some, solid⟩
  have full : word.isEmpty = false := List.isEmpty_eq_false_iff.mpr some
  rw [words, List.splitOnP_eq_singleton solid, List.filter_cons, full]
  rfl

theorem words_lead {word : Str} (proper : isWordText word = true) (y : Str) {c : Char}
    (space : isSpace c = true) : words (word ++ c :: y) = word :: words y := by
  rw [words_append word y space, words_single proper]
  rfl

/-- The induction on the words of a text: it is empty, or starts with a blank, or with a word
that a blank or the end of the text follows. -/
theorem words_induction {P : Str → Prop} (nil : P [])
    (blank : ∀ c s, isSpace c = true → P s → P (c :: s))
    (last : ∀ word, isWordText word = true → P word)
    (word : ∀ word c s, isWordText word = true → isSpace c = true → P s → P (word ++ c :: s))
    (s : Str) : P s := by
  induction length : s.length using Nat.strong_induction_on generalizing s with
  | _ n ih =>
      cases s with
      | nil => exact nil
      | cons d s =>
          cases space : isSpace d with
          | true =>
              have shorter : s.length < n := by
                rw [← length, List.length_cons]
                omega
              exact blank d s space (ih _ shorter s rfl)
          | false =>
              have front : (d :: s).takeWhile (!isSpace ·) = d :: s.takeWhile (!isSpace ·) := by
                rw [List.takeWhile_cons, space]
                rfl
              have proper : isWordText ((d :: s).takeWhile (!isSpace ·)) = true := by
                rw [isWordText_iff]
                refine ⟨by simp [front], fun c member => ?_⟩
                simpa using List.mem_takeWhile_imp member
              have whole := List.takeWhile_append_dropWhile (p := (!isSpace ·)) (l := d :: s)
              cases rest : (d :: s).dropWhile (!isSpace ·) with
              | nil =>
                  rw [rest, List.append_nil] at whole
                  rw [← whole]
                  exact last _ proper
              | cons c tail =>
                  have stops : isSpace c = true := by
                    have first := List.head?_dropWhile_not (!isSpace ·) (d :: s)
                    rw [rest] at first
                    simpa using first
                  rw [rest] at whole
                  have shorter : tail.length < n := by
                    rw [← length, ← whole, List.length_append, List.length_cons]
                    omega
                  rw [← whole]
                  exact word _ c tail proper stops (ih _ shorter tail rfl)

theorem mem_words (s : Str) : ∀ word ∈ words s, isWordText word = true := by
  induction s using words_induction with
  | nil =>
      intro word member
      cases member
  | blank c s space ih =>
      rw [words_cons s space]
      exact ih
  | last text proper =>
      rw [words_single proper]
      intro word member
      rwa [List.mem_singleton.mp member]
  | word text c s proper space ih =>
      rw [words_lead proper s space]
      intro word member
      rcases List.mem_cons.mp member with rfl | later
      · exact proper
      · exact ih word later

theorem words_strip (s : Str) : words (strip s) = words s := by
  have front (s : Str) : words (lstrip s) = words s := by
    induction s with
    | nil => rfl
    | cons c s ih =>
        rw [lstrip, List.dropWhile_cons]
        split
        next space => rw [words_cons s space, ← ih, lstrip]
        next => rfl
  have back (s : Str) : words (rstrip s) = words s := by
    induction s using List.reverseRecOn with
    | nil => rfl
    | append_singleton s c ih =>
        rw [rstrip, List.rdropWhile_concat]
        split
        next space =>
          rw [words_append s [] space, ← ih]
          exact (List.append_nil _).symm
        next => rfl
  rw [strip, back, front]

theorem words_join {parts : List Str} (proper : ∀ part ∈ parts, isWordText part = true) :
    words (join [' '] parts) = parts := by
  induction parts with
  | nil => rfl
  | cons part parts ih =>
      have own := proper part List.mem_cons_self
      have later := ih fun other member => proper other (List.mem_cons_of_mem _ member)
      cases parts with
      | nil =>
          rw [join, List.intercalate_singleton]
          exact words_single own
      | cons next parts =>
          rw [join, List.intercalate_cons_cons, List.append_assoc, List.singleton_append]
          rw [join] at later
          rw [words_lead own _ (by decide), later]

section Patterns

variable {pattern : Str} (proper : isWordText pattern = true)

include proper

omit proper in
theorem infix_around {x y : Str} {c : Char} (free : c ∉ pattern) :
    pattern <:+: x ++ c :: y ↔ pattern <:+: x ∨ pattern <:+: y := by
  constructor
  · rintro ⟨p, q, whole⟩
    rcases List.append_eq_append_iff.mp whole with ⟨tail, left, -⟩ | ⟨tail, left, right⟩
    · exact .inl ⟨p, tail, left.symm⟩
    · cases tail with
      | nil =>
          rw [List.append_nil] at left
          exact .inl ⟨p, [], by rw [List.append_nil, left]⟩
      | cons d tail =>
          rw [List.cons_append, List.cons.injEq] at right
          rcases List.append_eq_append_iff.mp left with ⟨m, -, inside⟩ | ⟨m, -, inside⟩
          · exact absurd (by rw [inside, right.1]; simp) free
          · cases m with
            | nil =>
                rw [List.nil_append] at inside
                exact absurd (by rw [← inside, right.1]; simp) free
            | cons e m =>
                rw [List.cons_append, List.cons.injEq] at inside
                exact .inr ⟨m, q, by rw [right.2, inside.2]⟩
  · rintro (first | second)
    · exact first.trans (List.prefix_append x _).isInfix
    · exact second.trans ((List.suffix_cons c y).trans (List.suffix_append x _)).isInfix

theorem infix_words (s : Str) : pattern <:+: s ↔ ∃ word ∈ words s, pattern <:+: word := by
  rcases isWordText_iff.mp proper with ⟨some, solid⟩
  have free {c : Char} (space : isSpace c = true) : c ∉ pattern := by
    intro member
    rw [solid c member] at space
    cases space
  induction s using words_induction with
  | nil =>
      rw [List.infix_nil]
      exact iff_of_false some fun ⟨word, member, _⟩ => absurd member List.not_mem_nil
  | blank c s space ih =>
      have around := @infix_around pattern [] s c (free space)
      rw [List.nil_append, List.infix_nil, or_iff_right some] at around
      rw [words_cons s space]
      exact around.trans ih
  | last text own => simp [words_single own]
  | word text c s own space ih =>
      rw [words_lead own s space, infix_around (free space)]
      simp only [List.mem_cons, exists_eq_or_imp]
      exact or_congr Iff.rfl ih

theorem prefix_words (s : Str) :
    pattern <+: strip s ↔ ∃ word ∈ (words s).head?, pattern <+: word := by
  rcases isWordText_iff.mp proper with ⟨some, solid⟩
  rw [← words_strip]
  have solidHead : ∀ c ∈ (strip s).head?, isSpace c = false := by
    intro c first
    rw [strip_head?] at first
    rcases List.head?_eq_some_iff.mp first with ⟨t, whole⟩
    exact lstrip_head whole
  generalize strip s = text at solidHead
  induction text using words_induction with
  | nil => simp [words, some]
  | blank c text space ih =>
      have solid := solidHead c rfl
      rw [space] at solid
      cases solid
  | last text own => simp [words_single own]
  | word text c rest own space ih =>
      have head : (words (text ++ c :: rest)).head? = .some text := by
        rw [words_lead own rest space]
        rfl
      simp only [head, Option.mem_def, Option.some.injEq, exists_eq_left']
      constructor
      · intro starts
        rcases List.prefix_or_prefix_of_prefix starts (List.prefix_append text _) with
          own | ⟨r, long⟩
        · exact own
        · cases r with
          | nil =>
              rw [List.append_nil] at long
              rw [long]
          | cons d r =>
              rw [← long, List.prefix_append_right_inj, List.cons_prefix_cons] at starts
              have inside := solid c (by rw [← long, starts.1]; simp)
              rw [space] at inside
              cases inside
      · intro starts
        exact starts.trans (List.prefix_append text _)

end Patterns

end Words

end SmolNas.Py
