import SmolNas.Py.Words

/-! `s.split(None, maxsplit)`: the first words of a text, and the rest of it. -/

namespace SmolNas.Py

/-- `s.split(None, maxsplit)`; blanks at the end of the rest stay. -/
def splitMax : Nat → Str → List Str
  | 0, s => if lstrip s = [] then [] else [lstrip s]
  | maxsplit + 1, s =>
      if lstrip s = [] then []
      else (lstrip s).takeWhile (!isSpace ·) ::
        splitMax maxsplit ((lstrip s).dropWhile (!isSpace ·))

theorem words_lstrip (s : Str) : words (lstrip s) = words s := by
  induction s with
  | nil => rfl
  | cons c s ih =>
      rw [lstrip, List.dropWhile_cons]
      split
      next space => rw [words_cons s space, ← ih, lstrip]
      next => rfl

theorem words_nil {s : Str} (blank : lstrip s = []) : words s = [] := by
  rw [← words_lstrip, blank]
  rfl

theorem words_first {s : Str} (filled : lstrip s ≠ []) :
    words s = (lstrip s).takeWhile (!isSpace ·) :: words ((lstrip s).dropWhile (!isSpace ·)) := by
  rw [← words_lstrip]
  rcases List.exists_cons_of_ne_nil filled with ⟨c, tail, whole⟩
  have solid : isSpace c = false := by
    have first := List.head?_dropWhile_not isSpace s
    rw [← lstrip, whole] at first
    simpa using first
  have proper : isWordText ((lstrip s).takeWhile (!isSpace ·)) = true := by
    rw [isWordText_iff]
    refine ⟨by simp [whole, solid], ?_⟩
    intro d member
    simpa using List.mem_takeWhile_imp member
  have parts := List.takeWhile_append_dropWhile (p := (!isSpace ·)) (l := lstrip s)
  conv_lhs => rw [← parts]
  cases rest : (lstrip s).dropWhile (!isSpace ·) with
  | nil =>
      rw [List.append_nil, words_single proper]
      rfl
  | cons d later =>
      have space : isSpace d = true := by
        have first := List.head?_dropWhile_not (!isSpace ·) (lstrip s)
        rw [rest] at first
        simpa using first
      rw [words_lead proper later space, words_cons later space]

theorem splitMax_words (maxsplit : Nat) (s : Str) :
    ((words s).length ≤ maxsplit → splitMax maxsplit s = words s) ∧
      (maxsplit < (words s).length → ∃ rest,
        splitMax maxsplit s = (words s).take maxsplit ++ [rest] ∧
          words rest = (words s).drop maxsplit) := by
  induction maxsplit generalizing s with
  | zero =>
      rw [splitMax]
      by_cases blank : lstrip s = []
      · rw [if_pos blank, words_nil blank]
        simp
      · rw [if_neg blank]
        refine ⟨?_, fun _ => ⟨lstrip s, rfl, words_lstrip s⟩⟩
        intro short
        rw [words_first blank] at short
        cases short
  | succ maxsplit ih =>
      rw [splitMax]
      by_cases blank : lstrip s = []
      · rw [if_pos blank, words_nil blank]
        simp
      · rw [if_neg blank, words_first blank]
        rcases ih ((lstrip s).dropWhile (!isSpace ·)) with ⟨short, long⟩
        constructor
        · intro few
          rw [short (Nat.le_of_succ_le_succ few)]
        · intro many
          rcases long (Nat.lt_of_succ_lt_succ many) with ⟨rest, parts, same⟩
          refine ⟨rest, ?_, same⟩
          rw [parts, List.take_succ_cons, List.cons_append]

end SmolNas.Py
