import SmolNas.Py.Str

/-! Regular expressions with the match order of a backtracking engine.

`run` lists every way a pattern matches at one position, in the order in which
the engine of `re` tries them; the first entry is the match that `re.match`
reports. A position is the reversed text before it and the text after it. -/

namespace SmolNas.Py

inductive Re where
  | eps
  | one (p : Char → Bool)
  | seq (r t : Re)
  | alt (r t : Re)
  | star (r : Re)
  | test (p : Str → Str → Bool)

/-- Repeats a matcher greedily; every repetition has to consume a character. -/
def iterate (f : Str → Str → List (Str × Str)) : Nat → Str → Str → List (Str × Str)
  | 0, before, s => [(before, s)]
  | fuel + 1, before, s =>
      ((f before s).filter (fun m => m.2.length < s.length)).flatMap
        (fun m => iterate f fuel m.1 m.2) ++ [(before, s)]

namespace Re

def run : Re → Str → Str → List (Str × Str)
  | eps, before, s => [(before, s)]
  | one _, _, [] => []
  | one p, before, c :: s => if p c then [(c :: before, s)] else []
  | seq r t, before, s => (r.run before s).flatMap fun m => t.run m.1 m.2
  | alt r t, before, s => r.run before s ++ t.run before s
  | star r, before, s => iterate r.run s.length before s
  | test p, before, s => if p before s then [(before, s)] else []

def lit : Str → Re
  | [] => eps
  | c :: s => seq (one (· == c)) (lit s)

def plus (r : Re) : Re := seq r (star r)

def opt (r : Re) : Re := alt r eps

/-- `r{0,n}`. -/
def upTo (r : Re) : Nat → Re
  | 0 => eps
  | n + 1 => opt (seq r (upTo r n))

def space : Re := one isSpace

/-- `.`: any character but a line feed. -/
def dot : Re := one (· != '\n')

/-- `^` without the multiline flag. -/
def bol : Re := test fun before _ => before.isEmpty

/-- `$` without the multiline flag: the end, or a line feed that ends the text. -/
def eol : Re := test fun _ s => s == [] || s == ['\n']

/-- `\b`. -/
def boundary (db : CharData) : Re :=
  test fun before s => (before.head?.any db.isWord) != (s.head?.any db.isWord)

/-- `(?!r)`. -/
def notAhead (r : Re) : Re := test fun before s => (r.run before s).isEmpty

def fullmatch (r : Re) (s : Str) : Bool := (r.run [] s).any fun m => m.2.isEmpty

def searchFrom (r : Re) : Str → Str → Bool
  | before, [] => !(r.run before []).isEmpty
  | before, c :: s => !(r.run before (c :: s)).isEmpty || searchFrom r (c :: before) s

/-- Whether `re.search` finds a match. -/
def search (r : Re) (s : Str) : Bool := r.searchFrom [] s

/-- `re.match(r + '(' + g + ')', s).group(1)`. -/
def matchGroup (r g : Re) (s : Str) : Option Str :=
  ((r.run [] s).flatMap fun m => (g.run m.1 m.2).map fun k =>
    m.2.take (m.2.length - k.2.length)).head?

def subFrom (r : Re) (repl : Str) : Nat → Str → Str → Str
  | 0, _, s => s
  | _ + 1, _, [] => []
  | fuel + 1, before, c :: s =>
      match (r.run before (c :: s)).head? with
      | some m =>
          if m.2.length < (c :: s).length then repl ++ subFrom r repl fuel m.1 m.2
          else c :: subFrom r repl fuel (c :: before) s
      | none => c :: subFrom r repl fuel (c :: before) s

/-- `re.sub(r, repl, s)` for a pattern that never matches the empty text. -/
def sub (r : Re) (repl s : Str) : Str := r.subFrom repl s.length [] s

/-- The pattern matches between two positions. -/
def Matches (r : Re) (before s before' s' : Str) : Prop := (before', s') ∈ r.run before s

end Re

theorem iterate_fuel (f : Str → Str → List (Str × Str)) (m n : Nat) (before s : Str)
    (hm : s.length ≤ m) (hn : s.length ≤ n) : iterate f m before s = iterate f n before s := by
  induction m generalizing n before s with
  | zero =>
      have empty : s = [] := List.length_eq_zero_iff.mp (Nat.le_zero.mp hm)
      subst empty
      cases n with
      | zero => rfl
      | succ n => simp [iterate]
  | succ m ih =>
      cases n with
      | zero =>
          have empty : s = [] := List.length_eq_zero_iff.mp (Nat.le_zero.mp hn)
          subst empty
          simp [iterate]
      | succ n =>
          simp only [iterate]
          congr 1
          apply List.flatMap_congr
          intro entry member
          have shorter := (List.mem_filter.mp member).2
          rw [decide_eq_true_eq] at shorter
          exact ih n entry.1 entry.2 (by omega) (by omega)

namespace Re

variable {r t : Re} {p : Char → Bool} {before s before₁ s₁ before₂ s₂ : Str}

theorem matches_one {c : Char} (holds : p c = true) :
    (one p).Matches before (c :: s) (c :: before) s := by
  simp [Matches, run, holds]

theorem matches_seq (first : r.Matches before s before₁ s₁)
    (second : t.Matches before₁ s₁ before₂ s₂) :
    (seq r t).Matches before s before₂ s₂ :=
  List.mem_flatMap.mpr ⟨(before₁, s₁), first, second⟩

theorem matches_left (first : r.Matches before s before₁ s₁) :
    (alt r t).Matches before s before₁ s₁ :=
  List.mem_append_left _ first

theorem matches_right (second : t.Matches before s before₁ s₁) :
    (alt r t).Matches before s before₁ s₁ :=
  List.mem_append_right _ second

theorem matches_eps : eps.Matches before s before s := by
  simp [Matches, run]

theorem matches_test {q : Str → Str → Bool} (holds : q before s = true) :
    (test q).Matches before s before s := by
  simp [Matches, run, holds]

theorem matches_star_nil : (star r).Matches before s before s := by
  unfold Matches
  rw [run]
  cases s.length with
  | zero => simp [iterate]
  | succ n => simp [iterate]

theorem matches_star_cons (first : r.Matches before s before₁ s₁)
    (shorter : s₁.length < s.length) (rest : (star r).Matches before₁ s₁ before₂ s₂) :
    (star r).Matches before s before₂ s₂ := by
  unfold Matches at *
  rw [run] at rest ⊢
  cases size : s.length with
  | zero => omega
  | succ n =>
      rw [iterate]
      apply List.mem_append_left
      refine List.mem_flatMap.mpr ⟨(before₁, s₁), ?_, ?_⟩
      · exact List.mem_filter.mpr ⟨first, by simpa using shorter⟩
      · rw [iterate_fuel r.run n s₁.length before₁ s₁ (by omega) (Nat.le_refl _)]
        exact rest

theorem matches_star_one (w : Str) (all : ∀ c ∈ w, p c = true) :
    (star (one p)).Matches before (w ++ s) (w.reverse ++ before) s := by
  induction w generalizing before with
  | nil => exact matches_star_nil
  | cons c w ih =>
      have tail := @ih (c :: before) (fun d member => all d (by simp [member]))
      have head : (one p).Matches before (c :: (w ++ s)) (c :: before) (w ++ s) :=
        matches_one (all c (by simp))
      simpa using matches_star_cons head (by simp) tail

theorem matches_plus_one (w : Str) (all : ∀ c ∈ w, p c = true) (nonempty : w ≠ []) :
    (plus (one p)).Matches before (w ++ s) (w.reverse ++ before) s := by
  cases w with
  | nil => exact absurd rfl nonempty
  | cons c w =>
      have head : (one p).Matches before (c :: (w ++ s)) (c :: before) (w ++ s) :=
        matches_one (all c (by simp))
      have tail := @matches_star_one p (c :: before) s w
        (fun d member => all d (by simp [member]))
      simpa [plus] using matches_seq head tail

theorem matches_lit (w : Str) : (lit w).Matches before (w ++ s) (w.reverse ++ before) s := by
  induction w generalizing before with
  | nil => exact matches_eps
  | cons c w ih =>
      have head : (one (· == c)).Matches before (c :: (w ++ s)) (c :: before) (w ++ s) :=
        matches_one (by simp)
      simpa [lit] using matches_seq head (@ih (c :: before))

theorem searchFrom_iff (before s : Str) :
    r.searchFrom before s = true ↔
      ∃ a b, s = a ++ b ∧ r.run (a.reverse ++ before) b ≠ [] := by
  induction s generalizing before with
  | nil =>
      simp only [searchFrom, Bool.not_eq_true', List.isEmpty_eq_false_iff]
      constructor
      · intro found
        exact ⟨[], [], rfl, found⟩
      · intro given
        rcases given with ⟨a, b, equality, found⟩
        obtain ⟨rfl, rfl⟩ := List.append_eq_nil_iff.mp equality.symm
        exact found
  | cons c s ih =>
      simp only [searchFrom, Bool.or_eq_true, Bool.not_eq_true', List.isEmpty_eq_false_iff, ih]
      constructor
      · intro given
        rcases given with found | ⟨a, b, rfl, found⟩
        · exact ⟨[], c :: s, rfl, found⟩
        · exact ⟨c :: a, b, rfl, by simpa using found⟩
      · intro given
        rcases given with ⟨a, b, equality, found⟩
        cases a with
        | nil =>
            left
            rw [List.nil_append] at equality
            rw [equality]
            exact found
        | cons d a =>
            obtain ⟨rfl, rfl⟩ := List.cons.inj equality
            exact Or.inr ⟨a, b, rfl, by simpa using found⟩

theorem search_of_matches (a b : Str) (found : r.Matches a.reverse b before₁ s₁) :
    r.search (a ++ b) = true :=
  (searchFrom_iff [] (a ++ b)).mpr
    ⟨a, b, rfl, by simpa using List.ne_nil_of_mem found⟩

/-- Every class of the pattern lies within the given one. -/
def Within (P : Char → Prop) : Re → Prop
  | eps => True
  | one p => ∀ c, p c = true → P c
  | seq r t => r.Within P ∧ t.Within P
  | alt r t => r.Within P ∧ t.Within P
  | star r => r.Within P
  | test _ => True

theorem within_upTo {P : Char → Prop} (inside : r.Within P) (n : Nat) :
    (upTo r n).Within P := by
  induction n with
  | zero => trivial
  | succ n ih => exact ⟨⟨inside, ih⟩, trivial⟩

theorem within_lit {P : Char → Prop} {w : Str} (each : ∀ c ∈ w, P c) : (lit w).Within P := by
  induction w with
  | nil => trivial
  | cons c w ih =>
      refine ⟨fun d same => ?_, ih fun d member => each d (by simp [member])⟩
      rw [beq_iff_eq.mp same]
      exact each c (by simp)

private theorem iterate_consumes {P : Char → Prop} (f : Str → Str → List (Str × Str))
    (each : ∀ before s, ∀ m ∈ f before s,
      ∃ w, s = w ++ m.2 ∧ m.1 = w.reverse ++ before ∧ ∀ c ∈ w, P c)
    (fuel : Nat) (before s : Str) : ∀ m ∈ iterate f fuel before s,
      ∃ w, s = w ++ m.2 ∧ m.1 = w.reverse ++ before ∧ ∀ c ∈ w, P c := by
  have stop (before s : Str) :
      ∃ w, s = w ++ s ∧ before = w.reverse ++ before ∧ ∀ c ∈ w, P c := ⟨[], by simp⟩
  induction fuel generalizing before s with
  | zero =>
      intro m member
      rw [iterate, List.mem_singleton] at member
      subst member
      exact stop before s
  | succ fuel ih =>
      intro m member
      rw [iterate, List.mem_append, List.mem_singleton] at member
      rcases member with member | rfl
      · obtain ⟨k, first, rest⟩ := List.mem_flatMap.mp member
        obtain ⟨w, hs, hb, hw⟩ := each before s k (List.mem_of_mem_filter first)
        obtain ⟨v, ht, hc, hv⟩ := ih k.1 k.2 m rest
        refine ⟨w ++ v, by rw [hs, ht, List.append_assoc], by rw [hc, hb]; simp, ?_⟩
        intro c inside
        exact (List.mem_append.mp inside).elim (hw c) (hv c)
      · exact stop before s

theorem run_consumes {P : Char → Prop} (r : Re) (inside : r.Within P) (before s : Str) :
    ∀ m ∈ r.run before s,
      ∃ w, s = w ++ m.2 ∧ m.1 = w.reverse ++ before ∧ ∀ c ∈ w, P c := by
  induction r generalizing before s with
  | eps =>
      intro m member
      rw [run, List.mem_singleton] at member
      subst member
      exact ⟨[], by simp⟩
  | one p =>
      intro m member
      cases s with
      | nil => simp [run] at member
      | cons c s =>
          rw [run] at member
          split at member
          · rename_i holds
            rw [List.mem_singleton] at member
            subst member
            exact ⟨[c], by simp, by simp, by simpa using inside c holds⟩
          · simp at member
  | seq r t ihr iht =>
      intro m member
      rw [run] at member
      obtain ⟨k, first, second⟩ := List.mem_flatMap.mp member
      obtain ⟨w, hs, hb, hw⟩ := ihr inside.1 before s k first
      obtain ⟨v, ht, hc, hv⟩ := iht inside.2 k.1 k.2 m second
      refine ⟨w ++ v, by rw [hs, ht, List.append_assoc], by rw [hc, hb]; simp, ?_⟩
      intro c member
      exact (List.mem_append.mp member).elim (hw c) (hv c)
  | alt r t ihr iht =>
      intro m member
      rw [run, List.mem_append] at member
      rcases member with first | second
      · exact ihr inside.1 before s m first
      · exact iht inside.2 before s m second
  | star r ih =>
      intro m member
      rw [run] at member
      exact iterate_consumes r.run (ih inside) s.length before s m member
  | test q =>
      intro m member
      rw [run] at member
      split at member
      · rw [List.mem_singleton] at member
        subst member
        exact ⟨[], by simp⟩
      · simp at member

theorem fullmatch_within {P : Char → Prop} (inside : r.Within P)
    (accepted : r.fullmatch s = true) : ∀ c ∈ s, P c := by
  obtain ⟨m, member, finished⟩ := List.any_eq_true.mp accepted
  obtain ⟨w, hs, -, hw⟩ := run_consumes r inside [] s m member
  rw [List.isEmpty_iff.mp finished, List.append_nil] at hs
  rwa [hs]

end Re

end SmolNas.Py
