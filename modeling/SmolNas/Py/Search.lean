import SmolNas.Py.Regex

/-! What a text must hold for a search in it to find something. -/

namespace SmolNas.Py

namespace Re

variable {r t : Re} {s : Str}

theorem within_true (r : Re) : r.Within fun _ => True := by
  induction r with
  | eps => trivial
  | one p => exact fun _ _ => trivial
  | seq r t ihr iht => exact ⟨ihr, iht⟩
  | alt r t ihr iht => exact ⟨ihr, iht⟩
  | star r ih => exact ih
  | test p => trivial

theorem search_seq_left (found : (seq r t).search s = true) : r.search s = true := by
  obtain ⟨a, b, rfl, run⟩ := (searchFrom_iff [] s).mp found
  refine (searchFrom_iff [] (a ++ b)).mpr ⟨a, b, rfl, ?_⟩
  intro empty
  rw [Re.run, empty] at run
  exact run List.flatMap_nil

theorem search_seq_right (found : (seq r t).search s = true) : t.search s = true := by
  obtain ⟨a, b, rfl, run⟩ := (searchFrom_iff [] s).mp found
  obtain ⟨m, member⟩ := List.exists_mem_of_ne_nil _ run
  obtain ⟨k, first, second⟩ := List.mem_flatMap.mp member
  obtain ⟨w, rest, before, -⟩ := run_consumes r r.within_true _ b k first
  refine (searchFrom_iff [] (a ++ b)).mpr ⟨a ++ w, k.2, by rw [rest, List.append_assoc], ?_⟩
  have same : (a ++ w).reverse ++ [] = k.1 := by rw [before]; simp
  rw [same]
  exact List.ne_nil_of_mem second

/-- Every match consumes a character that is not in the list. -/
def escapes (alphabet : Str) : Re → Bool
  | eps => false
  | one p => alphabet.all fun c => !p c
  | seq r t => r.escapes alphabet || t.escapes alphabet
  | alt r t => r.escapes alphabet && t.escapes alphabet
  | star _ => false
  | test _ => false

theorem run_escapes (alphabet : Str) (r : Re) (escapes : r.escapes alphabet = true)
    (before s : Str) (inside : ∀ c ∈ s, c ∈ alphabet) : r.run before s = [] := by
  induction r generalizing before s with
  | eps => simp [Re.escapes] at escapes
  | one p =>
      cases s with
      | nil => rfl
      | cons c s =>
          have other := List.all_eq_true.mp escapes c (inside c (by simp))
          rw [Re.run, if_neg (by simpa using other)]
  | seq r t ihr iht =>
      rw [Re.escapes, Bool.or_eq_true] at escapes
      rcases escapes with first | second
      · rw [Re.run, ihr first before s inside, List.flatMap_nil]
      · rw [Re.run, List.flatMap_eq_nil_iff]
        intro k member
        obtain ⟨w, rest, -, -⟩ := run_consumes r r.within_true before s k member
        exact iht second k.1 k.2 fun c later => inside c (by simp [rest, later])
  | alt r t ihr iht =>
      rw [Re.escapes, Bool.and_eq_true] at escapes
      rw [Re.run, ihr escapes.1 before s inside, iht escapes.2 before s inside, List.append_nil]
  | star r => simp [Re.escapes] at escapes
  | test p => simp [Re.escapes] at escapes

theorem search_escapes {alphabet : Str} (escapes : r.escapes alphabet = true)
    (inside : ∀ c ∈ s, c ∈ alphabet) : r.search s = false := by
  rw [Bool.eq_false_iff]
  intro found
  obtain ⟨a, b, rfl, run⟩ := (searchFrom_iff [] s).mp found
  exact run (run_escapes alphabet r escapes _ b fun c member => inside c (by simp [member]))

/-- A lower bound of the length of a match. -/
def minLength : Re → Nat
  | eps => 0
  | one _ => 1
  | seq r t => r.minLength + t.minLength
  | alt r t => min r.minLength t.minLength
  | star _ => 0
  | test _ => 0

theorem run_minLength (r : Re) (before s : Str) :
    ∀ m ∈ r.run before s, m.2.length + r.minLength ≤ s.length := by
  induction r generalizing before s with
  | eps => simp [Re.run, minLength]
  | one p =>
      intro m member
      cases s with
      | nil => simp [Re.run] at member
      | cons c s =>
          rw [Re.run] at member
          split at member
          · rw [List.mem_singleton] at member
            simp [member, minLength]
          · simp at member
  | seq r t ihr iht =>
      intro m member
      obtain ⟨k, first, second⟩ := List.mem_flatMap.mp member
      have left := ihr before s k first
      have right := iht k.1 k.2 m second
      rw [minLength]
      omega
  | alt r t ihr iht =>
      intro m member
      rw [minLength]
      rcases List.mem_append.mp member with first | second
      · have left := ihr before s m first
        omega
      · have right := iht before s m second
        omega
  | star r =>
      intro m member
      obtain ⟨w, rest, -, -⟩ := run_consumes (star r) (star r).within_true before s m member
      rw [rest, minLength, List.length_append]
      omega
  | test p =>
      intro m member
      rw [Re.run] at member
      split at member
      · rw [List.mem_singleton] at member
        simp [member, minLength]
      · simp at member

end Re

end SmolNas.Py
