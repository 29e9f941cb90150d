import SmolNas.Py.Search

/-! The texts that a pattern matches, taken apart along the pattern, and moved to other
surroundings: a match reads what it consumes and, through the tests of the pattern,
what stands around it. -/

namespace SmolNas.Py

namespace Re

variable {r t : Re} {w before s before' s' : Str}

section Text

/-- The pattern matches the text `w` between two others. -/
def MatchesText (r : Re) (before w s : Str) : Prop :=
  r.Matches before (w ++ s) (w.reverse ++ before) s

theorem run_text {m : Str × Str} (found : m ∈ r.run before s) :
    ∃ v, s = v ++ m.2 ∧ m.1 = v.reverse ++ before ∧ r.MatchesText before v m.2 := by
  obtain ⟨v, text, past, -⟩ := run_consumes r r.within_true before s m found
  refine ⟨v, text, past, ?_⟩
  rw [MatchesText, ← text, ← past]
  exact found

theorem search_text {s : Str} (found : r.search s = true) :
    ∃ a w b, s = a ++ (w ++ b) ∧ r.MatchesText a.reverse w b := by
  obtain ⟨a, b, rfl, run⟩ := (searchFrom_iff [] s).mp found
  rw [List.append_nil] at run
  obtain ⟨m, member⟩ := List.exists_mem_of_ne_nil _ run
  obtain ⟨w, text, -, matched⟩ := run_text member
  exact ⟨a, w, m.2, by rw [text], matched⟩

theorem run_test {q : Str → Str → Bool} {k : Str × Str} (found : k ∈ (test q).run before s) :
    k = (before, s) ∧ q before s = true := by
  rw [run] at found
  split at found
  next holds => exact ⟨List.mem_singleton.mp found, holds⟩
  next => cases found

theorem run_star {m : Str × Str} (found : m ∈ (star r).run before s) :
    m = (before, s) ∨
      ∃ k ∈ r.run before s, k.2.length < s.length ∧ m ∈ (star r).run k.1 k.2 := by
  rw [run] at found
  cases size : s.length with
  | zero =>
      rw [size, iterate, List.mem_singleton] at found
      exact .inl found
  | succ n =>
      rw [size, iterate, List.mem_append, List.mem_singleton] at found
      rcases found with found | stop
      · obtain ⟨k, member, later⟩ := List.mem_flatMap.mp found
        obtain ⟨first, shorter⟩ := List.mem_filter.mp member
        rw [decide_eq_true_eq] at shorter
        refine .inr ⟨k, first, by omega, ?_⟩
        rwa [run, iterate_fuel r.run k.2.length n k.1 k.2 (Nat.le_refl _) (by omega)]
      · exact .inl stop

/-- The place between the two parts of a match. -/
private theorem text_parts {k : Str × Str} (first : k ∈ r.run before (w ++ s))
    (second : (w.reverse ++ before, s) ∈ t.run k.1 k.2) :
    ∃ v u, w = v ++ u ∧ k = (v.reverse ++ before, u ++ s) ∧ r.MatchesText before v (u ++ s) ∧
      t.MatchesText (v.reverse ++ before) u s := by
  obtain ⟨v, text, past, -⟩ := run_text first
  obtain ⟨u, rest, -⟩ := run_text second
  have parts : w = v ++ u := by
    rw [rest, ← List.append_assoc v] at text
    exact List.append_cancel_right text
  have place : k = (v.reverse ++ before, u ++ s) := Prod.ext past rest
  subst parts
  rw [place] at first second
  rw [List.append_assoc] at first
  rw [List.reverse_append, List.append_assoc] at second
  exact ⟨v, u, rfl, place, first, second⟩

theorem text_eps (found : eps.MatchesText before w s) : w = [] := by
  have stop := List.mem_singleton.mp found
  exact List.append_left_eq_self.mp (Prod.ext_iff.mp stop).2.symm

theorem text_one {p : Char → Bool} (found : (one p).MatchesText before w s) :
    ∃ c, w = [c] ∧ p c = true := by
  cases w with
  | nil =>
      have shorter := run_minLength (one p) _ _ _ found
      simp only [List.nil_append, minLength] at shorter
      omega
  | cons c w =>
      rw [MatchesText, Matches, List.cons_append, run] at found
      split at found
      next holds =>
        have stop := (Prod.ext_iff.mp (List.mem_singleton.mp found)).2
        have empty : w = [] := List.append_left_eq_self.mp stop.symm
        exact ⟨c, by rw [empty], holds⟩
      next => cases found

theorem text_seq (found : (seq r t).MatchesText before w s) :
    ∃ v u, w = v ++ u ∧ r.MatchesText before v (u ++ s) ∧
      t.MatchesText (v.reverse ++ before) u s := by
  obtain ⟨k, first, second⟩ := List.mem_flatMap.mp found
  obtain ⟨v, u, whole, -, head, tail⟩ := text_parts first second
  exact ⟨v, u, whole, head, tail⟩

theorem text_star (found : (star r).MatchesText before w s) :
    w = [] ∨ ∃ v u, w = v ++ u ∧ v ≠ [] ∧ r.MatchesText before v (u ++ s) ∧
      (star r).MatchesText (v.reverse ++ before) u s := by
  rcases run_star found with stop | ⟨k, first, shorter, later⟩
  · exact .inl (List.append_left_eq_self.mp (Prod.ext_iff.mp stop).2.symm)
  · obtain ⟨v, u, whole, place, head, tail⟩ := text_parts first later
    refine .inr ⟨v, u, whole, ?_, head, tail⟩
    intro empty
    rw [place, whole, empty] at shorter
    exact absurd shorter (Nat.lt_irrefl _)

theorem text_test {q : Str → Str → Bool} (found : (test q).MatchesText before w s) :
    w = [] ∧ q before s = true := by
  obtain ⟨stop, holds⟩ := run_test found
  have empty : w = [] := List.append_left_eq_self.mp (Prod.ext_iff.mp stop).2.symm
  rw [empty] at holds
  exact ⟨empty, holds⟩

theorem text_lit {v : Str} (found : (lit v).MatchesText before w s) : w = v := by
  induction v generalizing before w with
  | nil => exact text_eps found
  | cons c v ih =>
      obtain ⟨x, y, rfl, first, second⟩ := text_seq found
      obtain ⟨d, rfl, same⟩ := text_one first
      rw [ih second, beq_iff_eq.mp same]
      rfl

theorem text_within {P : Char → Prop} (inside : r.Within P) (found : r.MatchesText before w s) :
    ∀ c ∈ w, P c := by
  obtain ⟨v, text, -, each⟩ := run_consumes r inside before _ _ found
  rw [List.append_cancel_right text]
  exact each

theorem text_minLength (found : r.MatchesText before w s) : r.minLength ≤ w.length := by
  have bound := run_minLength r _ _ _ found
  simp only [List.length_append] at bound
  omega

theorem text_plus {p : Char → Bool} (found : (plus (one p)).MatchesText before w s) :
    w ≠ [] ∧ ∀ c ∈ w, p c = true := by
  have inside : (plus (one p)).Within fun c => p c = true := ⟨fun _ holds => holds, fun _ holds => holds⟩
  refine ⟨?_, text_within inside found⟩
  intro empty
  have long := text_minLength found
  rw [empty] at long
  exact absurd long (Nat.not_succ_le_zero _)

theorem text_spaces (found : (plus space).MatchesText before w s) :
    w ≠ [] ∧ ∀ c ∈ w, isSpace c = true :=
  text_plus found

theorem text_opt (found : (opt r).MatchesText before w s) :
    r.MatchesText before w s ∨ w = [] := by
  rcases List.mem_append.mp found with some | none
  · exact .inl some
  · exact .inr (text_eps none)

theorem matchesText_seq {v u : Str} (first : r.MatchesText before v (u ++ s))
    (second : t.MatchesText (v.reverse ++ before) u s) :
    (seq r t).MatchesText before (v ++ u) s := by
  rw [MatchesText, List.append_assoc, List.reverse_append, List.append_assoc]
  exact matches_seq first second

theorem matchesText_star {v u : Str} (first : r.MatchesText before v (u ++ s)) (some : v ≠ [])
    (rest : (star r).MatchesText (v.reverse ++ before) u s) :
    (star r).MatchesText before (v ++ u) s := by
  have positive := List.length_pos_of_ne_nil some
  rw [MatchesText, List.append_assoc, List.reverse_append, List.append_assoc]
  exact matches_star_cons first (by simp only [List.length_append]; omega) rest

end Text

section Moves

def tests : Re → List (Str → Str → Bool)
  | eps => []
  | one _ => []
  | seq r t => r.tests ++ t.tests
  | alt r t => r.tests ++ t.tests
  | star r => r.tests
  | test q => [q]

/-- The tests of the pattern say the same of every place of `w` in its two surroundings. -/
def Stable (r : Re) (w before s before' s' : Str) : Prop :=
  ∀ q ∈ r.tests, ∀ x y, w = x ++ y →
    q (x.reverse ++ before) (y ++ s) = q (x.reverse ++ before') (y ++ s')

/-- Every part of `w` that the pattern matches in the first surroundings it matches in
the second. -/
def Moves (r : Re) (w before s before' s' : Str) : Prop :=
  ∀ x v y, w = x ++ (v ++ y) → r.MatchesText (x.reverse ++ before) v (y ++ s) →
    r.MatchesText (x.reverse ++ before') v (y ++ s')

theorem moves_first (moves : r.Moves w before s before' s') {x v u y : Str}
    (place : w = x ++ ((v ++ u) ++ y))
    (found : r.MatchesText (x.reverse ++ before) v (u ++ (y ++ s))) :
    r.MatchesText (x.reverse ++ before') v (u ++ (y ++ s')) := by
  have moved := moves x v (u ++ y) (by rw [place, List.append_assoc])
  rw [List.append_assoc, List.append_assoc] at moved
  exact moved found

theorem moves_second (moves : r.Moves w before s before' s') {x v u y : Str}
    (place : w = x ++ ((v ++ u) ++ y))
    (found : r.MatchesText (v.reverse ++ (x.reverse ++ before)) u (y ++ s)) :
    r.MatchesText (v.reverse ++ (x.reverse ++ before')) u (y ++ s') := by
  have moved := moves (x ++ v) u y (by rw [place]; simp)
  rw [List.reverse_append, List.append_assoc, List.append_assoc] at moved
  exact moved found

private theorem moves_star (each : r.Moves w before s before' s') :
    (star r).Moves w before s before' s' := by
  intro x v y place found
  -- the induction is on the length of the text that the repetition consumes
  induction size : v.length using Nat.strong_induction_on generalizing x v with
  | _ n ih =>
      subst size
      rcases text_star found with rfl | ⟨v, u, rfl, some, head, tail⟩
      · exact matches_star_nil
      · have positive := List.length_pos_of_ne_nil some
        refine matchesText_star (moves_first each place head) some ?_
        have later := ih u.length (by rw [List.length_append]; omega) (x ++ v) u
          (by rw [place]; simp)
        rw [List.reverse_append, List.append_assoc, List.append_assoc] at later
        exact later tail rfl

/-- A match depends on the text it consumes and on the tests at its places. -/
theorem moves_of_stable (r : Re) (stable : r.Stable w before s before' s') :
    r.Moves w before s before' s' := by
  induction r with
  | eps =>
      intro x v y place found
      rw [text_eps found]
      exact matches_eps
  | one p =>
      intro x v y place found
      obtain ⟨c, rfl, holds⟩ := text_one found
      exact matches_one holds
  | seq r t ihr iht =>
      intro x v y place found
      obtain ⟨v, u, rfl, first, second⟩ := text_seq found
      have left := ihr fun q member => stable q (List.mem_append_left _ member)
      have right := iht fun q member => stable q (List.mem_append_right _ member)
      exact matchesText_seq (moves_first left place first) (moves_second right place second)
  | alt r t ihr iht =>
      intro x v y place found
      rcases List.mem_append.mp found with first | second
      · exact matches_left
          (ihr (fun q member => stable q (List.mem_append_left _ member)) x v y place first)
      · exact matches_right
          (iht (fun q member => stable q (List.mem_append_right _ member)) x v y place second)
  | star r ih => exact moves_star (ih stable)
  | test q =>
      intro x v y place found
      obtain ⟨rfl, holds⟩ := text_test found
      have same := stable q List.mem_cons_self x y place
      exact matches_test (same.symm.trans holds)

theorem text_moved (stable : r.Stable w before s before' s') (found : r.MatchesText before w s) :
    r.MatchesText before' w s' := by
  have moved := moves_of_stable r stable [] w [] (by simp)
  simp only [List.reverse_nil, List.nil_append] at moved
  exact moved found

end Moves

theorem subFrom_none {repl : Str} (fuel : Nat)
    (none : ∀ a b, s = a ++ b → r.run (a.reverse ++ before) b = []) :
    r.subFrom repl fuel before s = s := by
  induction fuel generalizing before s with
  | zero => rfl
  | succ fuel ih =>
      cases s with
      | nil => rfl
      | cons c s =>
          have first := none [] (c :: s) rfl
          rw [List.reverse_nil, List.nil_append] at first
          have later : r.subFrom repl fuel (c :: before) s = s := by
            apply ih
            intro a b split
            have next := none (c :: a) b (by rw [split, List.cons_append])
            simpa using next
          rw [subFrom, first, List.head?_nil, later]

theorem subFrom_rest {repl a b : Str} {fuel : Nat} (enough : (a ++ b).length ≤ fuel)
    (none : ∀ x y, a = x ++ y → y ≠ [] → r.run (x.reverse ++ before) (y ++ b) = []) (some : b ≠ [])
    {past : Str} (found : (r.run (a.reverse ++ before) b).head? = .some (past, [])) :
    r.subFrom repl fuel before (a ++ b) = a ++ repl := by
  induction a generalizing before fuel with
  | nil =>
      rw [List.nil_append] at enough ⊢
      rw [List.reverse_nil, List.nil_append] at found
      cases b with
      | nil => exact absurd rfl some
      | cons c b =>
          cases fuel with
          | zero => exact absurd enough (Nat.not_succ_le_zero _)
          | succ fuel =>
              rw [subFrom, found]
              dsimp only
              rw [if_pos (by simp)]
              cases fuel <;> simp [subFrom]
  | cons c a ih =>
      cases fuel with
      | zero => exact absurd enough (Nat.not_succ_le_zero _)
      | succ fuel =>
          have first := none [] (c :: a) rfl (List.cons_ne_nil c a)
          rw [List.reverse_nil, List.nil_append] at first
          have later : r.subFrom repl fuel (c :: before) (a ++ b) = a ++ repl := by
            apply ih
            · exact Nat.le_of_succ_le_succ enough
            · intro x y split filled
              have next := none (c :: x) y (by rw [split, List.cons_append]) filled
              simpa using next
            · simpa using found
          rw [List.cons_append] at first ⊢
          rw [subFrom, first, List.head?_nil, later, List.cons_append]

end Re

end SmolNas.Py
