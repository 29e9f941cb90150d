import SmolNas.Py.Lines

/-! `s.split(sep)` for a separator of several characters. -/

namespace SmolNas.Py

/-- What stands before the first occurrence of the separator, and after it. -/
def partition (sep : Str) : Str → Option (Str × Str)
  | [] => if sep = [] then some ([], []) else none
  | c :: s =>
      if sep.isPrefixOf (c :: s) then some ([], (c :: s).drop sep.length)
      else (partition sep s).map fun parts => (c :: parts.1, parts.2)

def splitFrom (sep : Str) : Nat → Str → List Str
  | 0, s => [s]
  | fuel + 1, s =>
      match partition sep s with
      | none => [s]
      | some (front, rest) => front :: splitFrom sep fuel rest

/-- `s.split(sep)`. Every part but the last takes a separator off the text, so the length
of the text is enough. -/
def split (sep s : Str) : List Str := splitFrom sep s.length s

section Split

variable {sep : Str}

theorem partition_spec {s front rest : Str} (parted : partition sep s = some (front, rest)) :
    s = front ++ sep ++ rest := by
  induction s generalizing front with
  | nil =>
      rw [partition] at parted
      split at parted
      next empty =>
        cases parted
        rw [empty]
        rfl
      next => cases parted
  | cons c s ih =>
      rw [partition] at parted
      split at parted
      next starts =>
        cases parted
        rcases List.isPrefixOf_iff_prefix.mp starts with ⟨tail, whole⟩
        rw [← whole, List.drop_left, List.nil_append]
      next =>
        rcases Option.map_eq_some_iff.mp parted with ⟨⟨before, after⟩, found, same⟩
        cases same
        rw [ih found]
        rfl

theorem partition_first (x y : Str) :
    ∃ front rest, partition sep (x ++ sep ++ y) = some (front, rest) ∧
      front.length ≤ x.length := by
  induction x with
  | nil =>
      cases whole : [] ++ sep ++ y with
      | nil =>
          have empty : sep = [] := by
            have both := List.append_eq_nil_iff.mp whole
            simpa using both.1
          exact ⟨[], [], by rw [partition, if_pos empty], Nat.le_refl 0⟩
      | cons c s =>
          have starts : sep.isPrefixOf (c :: s) = true := by
            rw [List.isPrefixOf_iff_prefix, ← whole]
            exact List.prefix_append sep y
          exact ⟨[], _, by rw [partition, if_pos starts], Nat.le_refl 0⟩
  | cons c x ih =>
      rw [List.cons_append, List.cons_append, partition]
      split
      · exact ⟨[], _, rfl, Nat.zero_le _⟩
      · rcases ih with ⟨front, rest, found, short⟩
        exact ⟨c :: front, rest, by rw [found, Option.map_some], Nat.succ_le_succ short⟩

theorem partition_append {s front rest : Str} (parted : partition sep s = some (front, rest))
    (more : Str) : partition sep (s ++ more) = some (front, rest ++ more) := by
  induction s generalizing front with
  | nil =>
      rw [partition] at parted
      split at parted
      next empty =>
        cases parted
        cases more with
        | nil => rw [List.append_nil, partition, if_pos empty]
        | cons c more => rw [empty]; rfl
      next => cases parted
  | cons c s ih =>
      have long : sep.length ≤ (c :: s).length := by
        have whole := congrArg List.length (partition_spec parted)
        rw [List.length_append, List.length_append] at whole
        omega
      have same : sep.isPrefixOf (c :: (s ++ more)) = sep.isPrefixOf (c :: s) := by
        rw [Bool.eq_iff_iff, List.isPrefixOf_iff_prefix, List.isPrefixOf_iff_prefix,
          ← List.cons_append]
        exact List.isPrefix_append_of_length long
      rw [List.cons_append, partition, same]
      rw [partition] at parted
      split at parted
      next starts =>
        cases parted
        rw [if_pos starts, ← List.cons_append, List.drop_append_of_le_length long]
      next other =>
        rcases Option.map_eq_some_iff.mp parted with ⟨⟨before, after⟩, found, equal⟩
        cases equal
        rw [if_neg other, ih found, Option.map_some]

theorem partition_none {s : Str} (absent : ¬sep <:+: s) : partition sep s = none := by
  cases parted : partition sep s with
  | none => rfl
  | some parts => exact absurd ⟨parts.1, parts.2, (partition_spec parted).symm⟩ absent

theorem split_second (proper : sep ≠ []) {s front rest : Str}
    (parted : partition sep s = some (front, rest)) :
    (split sep s)[1]? = some ((partition sep rest).elim rest Prod.fst) := by
  have whole := congrArg List.length (partition_spec parted)
  have positive := List.length_pos_of_ne_nil proper
  rw [List.length_append, List.length_append] at whole
  rcases Nat.exists_eq_succ_of_ne_zero (show s.length ≠ 0 by omega) with ⟨fuel, length⟩
  rw [split, length, splitFrom, parted]
  dsimp only
  rw [List.getElem?_cons_succ]
  cases fuel with
  | zero =>
      have empty : rest = [] := List.length_eq_zero_iff.mp (by omega)
      rw [empty, partition, if_neg proper]
      rfl
  | succ fuel =>
      rw [splitFrom]
      cases partition sep rest <;> rfl

end Split

section Line

variable {sep : Str} (line : Complete sep)

include line

theorem infix_line {x y : Str} (inside : sep <:+: x ++ '\n' :: y) :
    sep <:+: x ++ ['\n'] ∨ sep <:+: y := by
  rcases line with ⟨w, rfl, free⟩
  rcases inside with ⟨p, q, whole⟩
  have regrouped : (p ++ w) ++ '\n' :: q = x ++ '\n' :: y := by
    simpa using whole
  rcases List.append_eq_append_iff.mp regrouped with ⟨tail, left, right⟩ | ⟨tail, left, right⟩
  · cases tail with
    | nil =>
        left
        rw [List.append_nil] at left
        exact ⟨p, [], by simp [left]⟩
    | cons c tail =>
        left
        rw [List.cons_append, List.cons.injEq] at right
        exact ⟨p, tail ++ ['\n'], by simp [left, ← right.1]⟩
  · cases tail with
    | nil =>
        left
        rw [List.append_nil] at left
        exact ⟨p, [], by simp [← left]⟩
    | cons c tail =>
        right
        rw [List.cons_append, List.cons.injEq] at right
        rcases List.append_eq_append_iff.mp left with ⟨m, -, second⟩ | ⟨m, -, second⟩
        · exact absurd (by rw [second, ← right.1]; simp) free
        · cases m with
          | nil =>
              rw [List.nil_append] at second
              exact absurd (by rw [← second, ← right.1]; simp) free
          | cons d m =>
              rw [List.cons_append, List.cons.injEq] at second
              exact ⟨m, q, by rw [right.2, second.2]; simp⟩

theorem not_prefix_line {front more : Str} (ends : front.getLast? = some '\n')
    (absent : ¬sep <:+: front) : ¬sep <+: front ++ more := by
  rcases line with ⟨w, rfl, free⟩
  intro starts
  rcases List.prefix_or_prefix_of_prefix starts (List.prefix_append front more) with inside | short
  · exact absent inside.isInfix
  · rcases List.prefix_concat_iff.mp short with same | shorter
    · exact absent (by rw [same])
    · exact free (shorter.subset (List.mem_of_getLast? ends))

theorem partition_line {front rest : Str} (ends : front = [] ∨ front.getLast? = some '\n')
    (absent : ¬sep <:+: front) : partition sep (front ++ sep ++ rest) = some (front, rest) := by
  induction front with
  | nil =>
      rcases @partition_first sep [] rest with ⟨first, after, parted, short⟩
      have empty : first = [] := List.length_eq_zero_iff.mp (Nat.le_zero.mp short)
      have whole := partition_spec parted
      rw [empty, List.append_assoc, List.append_assoc, List.append_cancel_left_eq,
        List.append_cancel_left_eq] at whole
      rw [parted, empty, whole]
  | cons c front ih =>
      have last : (c :: front).getLast? = some '\n' := ends.resolve_left (List.cons_ne_nil c front)
      have other : ¬sep.isPrefixOf (c :: (front ++ (sep ++ rest))) = true := by
        rw [List.isPrefixOf_iff_prefix, ← List.cons_append]
        exact not_prefix_line line last absent
      have later : front = [] ∨ front.getLast? = some '\n' := by
        cases front with
        | nil => exact .inl rfl
        | cons d front => exact .inr last
      have inner : ¬sep <:+: front := fun inside => absent (List.infix_cons inside)
      rw [List.append_assoc] at ih ⊢
      rw [List.cons_append, partition, if_neg other, ih later inner, Option.map_some]

end Line

end SmolNas.Py
