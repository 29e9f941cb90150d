import SmolNas.App.Assistant
import SmolNas.Lib.Shell
import SmolNas.Py.Moves

/-! What the rewrite of `sudo` keeps: the script that runs is the checked one with
`sudo` and its blanks replaced here and there, so that a text between two such
places stands in both. -/

namespace SmolNas.App

open Py Lib

def sudoWord : Str := "sudo".toList

def sudoOption : Str := "sudo -n ".toList

theorem sudoOption_eq : sudoOption = ['s', 'u', 'd', 'o', ' ', '-', 'n', ' '] := rfl

/-- The text with the option put in after some of its `sudo` words, in the place of the
blanks there. The reversed text before such a word is `allowed`. -/
inductive SudoReplaced (allowed : Str → Prop) : Str → Str → Str → Prop where
  | nil (before : Str) : SudoReplaced allowed before [] []
  | copy {before s out : Str} (c : Char) (rest : SudoReplaced allowed (c :: before) s out) :
      SudoReplaced allowed before (c :: s) (c :: out)
  | replaced {before s out : Str} (blanks : Str) (some : blanks ≠ [])
      (spaces : ∀ c ∈ blanks, isSpace c = true) (edge : allowed before)
      (rest : SudoReplaced allowed ((sudoWord ++ blanks).reverse ++ before) s out) :
      SudoReplaced allowed before (sudoWord ++ blanks ++ s) (sudoOption ++ out)

abbrev Rewritten : Str → Str → Str → Prop := SudoReplaced fun _ => True

abbrev Optioned (db : CharData) : Str → Str → Str → Prop :=
  SudoReplaced fun before => before.head?.any db.isWord = false

theorem run_lit {w before s : Str} {m : Str × Str} (found : m ∈ (Re.lit w).run before s) :
    s = w ++ m.2 ∧ m.1 = w.reverse ++ before := by
  obtain ⟨v, text, past, matched⟩ := Re.run_text found
  rw [← Re.text_lit matched]
  exact ⟨text, past⟩

theorem run_plus_space {before s : Str} {m : Str × Str}
    (found : m ∈ (Re.plus .space).run before s) :
    ∃ blanks, blanks ≠ [] ∧ (∀ c ∈ blanks, isSpace c = true) ∧
      s = blanks ++ m.2 ∧ m.1 = blanks.reverse ++ before := by
  obtain ⟨blanks, text, past, matched⟩ := Re.run_text found
  obtain ⟨some, spaces⟩ := Re.text_spaces matched
  exact ⟨blanks, some, spaces, text, past⟩

/-- `\s+-n` -/
def optionRe : Re := .seq (.plus .space) (.lit "-n".toList)

theorem lstrip_blanks {blanks : Str} (spaces : ∀ c ∈ blanks, isSpace c = true) (rest : Str) :
    lstrip (blanks ++ rest) = lstrip rest := by
  rw [lstrip, List.dropWhile_append_of_pos spaces]
  rfl

theorem matches_blanks (before : Str) {b : Str} (blank : b.head?.any isSpace = true) :
    (Re.plus .space).Matches before b ((b.takeWhile isSpace).reverse ++ before) (lstrip b) := by
  have some : b.takeWhile isSpace ≠ [] := by
    cases b with
    | nil => cases blank
    | cons c b => simp [List.takeWhile_cons_of_pos (show isSpace c = true from blank)]
  have blanks : (Re.plus .space).Matches before (b.takeWhile isSpace ++ lstrip b)
      ((b.takeWhile isSpace).reverse ++ before) (lstrip b) :=
    Re.matches_plus_one _ (fun c member => List.mem_takeWhile_imp member) some
  rw [lstrip, List.takeWhile_append_dropWhile] at blanks
  exact blanks

theorem optionRe_found_iff (before b : Str) :
    optionRe.run before b ≠ [] ↔ b.head?.any isSpace = true ∧ "-n".toList <+: lstrip b := by
  constructor
  · intro found
    obtain ⟨m, member⟩ := List.exists_mem_of_ne_nil _ found
    obtain ⟨k, first, second⟩ := List.mem_flatMap.mp member
    obtain ⟨blanks, some, spaces, text, -⟩ := run_plus_space first
    obtain ⟨rest, -⟩ := run_lit second
    rw [text, lstrip_blanks spaces, rest]
    refine ⟨?_, ⟨m.2, rfl⟩⟩
    cases blanks with
    | nil => exact absurd rfl some
    | cons c blanks => exact spaces c (by simp)
  · intro given
    rcases given with ⟨head, tail, option⟩
    have blanks := matches_blanks before head
    rw [← option] at blanks
    exact List.ne_nil_of_mem (Re.matches_seq blanks (Re.matches_lit "-n".toList))

theorem run_sudoRe {db : CharData} {before s : Str} {m : Str × Str}
    (found : m ∈ (sudoRe db).run before s) :
    ∃ blanks, blanks ≠ [] ∧ (∀ c ∈ blanks, isSpace c = true) ∧
      s = sudoWord ++ blanks ++ m.2 ∧ m.1 = (sudoWord ++ blanks).reverse ++ before ∧
      before.head?.any db.isWord = false ∧ ¬ "-n".toList <+: lstrip m.2 := by
  obtain ⟨k, edge, found⟩ := List.mem_flatMap.mp found
  obtain ⟨rfl, boundary⟩ := Re.run_test edge
  obtain ⟨k, word, found⟩ := List.mem_flatMap.mp found
  obtain ⟨text, past⟩ := run_lit word
  obtain ⟨j, ahead, found⟩ := List.mem_flatMap.mp found
  obtain ⟨rfl, free⟩ := Re.run_test ahead
  obtain ⟨blanks, some, spaces, rest, beyond⟩ := run_plus_space found
  have letter : s.head?.any db.isWord = true := by
    rw [show s = 's' :: ("udo".toList ++ k.2) from text]
    exact by simp [CharData.isWord, db.isAlnum_ascii 's' (by decide)]
  refine ⟨blanks, some, spaces, ?_, ?_, ?_, ?_⟩
  · rw [List.append_assoc, ← rest]
    exact text
  · rw [beyond, past, List.reverse_append, List.append_assoc]
    rfl
  · rw [letter] at boundary
    simpa using boundary
  · intro option
    have nothing : optionRe.run k.1 k.2 = [] := List.isEmpty_iff.mp free
    refine (optionRe_found_iff k.1 k.2).mpr ⟨?_, ?_⟩ nothing
    · rw [rest]
      cases blanks with
      | nil => exact absurd rfl some
      | cons c blanks => exact spaces c (by simp)
    · rw [rest, lstrip_blanks spaces]
      exact option

/-- One step of the rewrite: a character that stays, or a `sudo` with its blanks. -/
theorem subFrom_step (db : CharData) (fuel : Nat) (before : Str) (c : Char) (s : Str) :
    ((sudoRe db).run before (c :: s) = [] ∧
      (sudoRe db).subFrom sudoOption (fuel + 1) before (c :: s) =
        c :: (sudoRe db).subFrom sudoOption fuel (c :: before) s) ∨
    ∃ blanks rest, blanks ≠ [] ∧ (∀ d ∈ blanks, isSpace d = true) ∧
      before.head?.any db.isWord = false ∧ c :: s = sudoWord ++ blanks ++ rest ∧
      rest.length ≤ s.length ∧
      (sudoRe db).subFrom sudoOption (fuel + 1) before (c :: s) =
        sudoOption ++
          (sudoRe db).subFrom sudoOption fuel ((sudoWord ++ blanks).reverse ++ before) rest := by
  rw [Re.subFrom]
  split
  next m found =>
    obtain ⟨blanks, some, spaces, text, past, edge, -⟩ := run_sudoRe (List.mem_of_head? found)
    have shorter : m.2.length < (c :: s).length := by
      rw [text, List.length_append, List.length_append]
      have four : sudoWord.length = 4 := by decide
      omega
    rw [if_pos shorter, past]
    exact .inr ⟨blanks, m.2, some, spaces, edge, text, Nat.le_of_lt_succ shorter, rfl⟩
  next none => exact .inl ⟨List.head?_eq_none_iff.mp none, rfl⟩

theorem optioned_subFrom (db : CharData) (fuel : Nat) (before s : Str) (enough : s.length ≤ fuel) :
    Optioned db before s ((sudoRe db).subFrom sudoOption fuel before s) := by
  induction fuel generalizing before s with
  | zero =>
      rw [List.length_eq_zero_iff.mp (Nat.le_zero.mp enough)]
      exact .nil before
  | succ fuel ih =>
      cases s with
      | nil => exact .nil before
      | cons c s =>
          rw [List.length_cons] at enough
          rcases subFrom_step db fuel before c s with
            ⟨-, out⟩ | ⟨blanks, rest, some, spaces, edge, text, shorter, out⟩
          · rw [out]
            exact .copy c (ih (c :: before) s (by omega))
          · rw [out, text]
            exact .replaced blanks some spaces edge (ih _ rest (by omega))

theorem optioned_sudoRewrite (db : CharData) (script : Str) :
    Optioned db [] script (sudoRewrite db script) :=
  optioned_subFrom db script.length [] script (Nat.le_refl _)

theorem SudoReplaced.mono {allowed wider : Str → Prop}
    (sub : ∀ before, allowed before → wider before)
    {before s out : Str} (replaced : SudoReplaced allowed before s out) :
    SudoReplaced wider before s out := by
  induction replaced with
  | nil before => exact .nil before
  | copy c rest ih => exact .copy c ih
  | replaced blanks some spaces edge rest ih =>
      exact .replaced blanks some spaces (sub _ edge) ih

theorem rewritten_sudoRewrite (db : CharData) (script : Str) :
    Rewritten [] script (sudoRewrite db script) :=
  (optioned_sudoRewrite db script).mono fun _ _ => trivial

/-- No replaced `sudo` begins within the first of two texts. -/
def NoSudo (w b : Str) : Prop := ∀ x y, w = x ++ y → y ≠ [] → ¬ sudoOption <+: y ++ b

theorem rewritten_keeps {before s w b : Str}
    (rewritten : Rewritten before s (w ++ b)) (free : NoSudo w b) :
    ∃ b', s = w ++ b' ∧ Rewritten (w.reverse ++ before) b' b := by
  induction w generalizing before s with
  | nil => exact ⟨s, rfl, rewritten⟩
  | cons c w ih =>
      generalize same : c :: w ++ b = out at rewritten
      cases rewritten with
      | nil => cases same
      | copy c rest =>
          cases same
          obtain ⟨b', rfl, later⟩ := ih rest
            (fun x y split => free (c :: x) y (by rw [split, List.cons_append]))
          exact ⟨b', rfl, by simpa using later⟩
      | replaced blanks some spaces _ rest =>
          exact absurd ⟨_, same.symm⟩ (free [] (c :: w) rfl (by simp))

theorem sudoOption_edge {a c : Str} (split : sudoOption = a ++ c)
    (edge : Shell.Closed isCommandStart a) : a = [] ∨ c = "-n ".toList ∨ c = [] := by
  have table : ∀ n < 9, (sudoOption.take n).getLast?.all isCommandStart = true →
      sudoOption.take n = [] ∨ sudoOption.drop n = "-n ".toList ∨ sudoOption.drop n = [] := by
    decide
  have front : sudoOption.take a.length = a := by rw [split, List.take_left]
  have back : sudoOption.drop a.length = c := by rw [split, List.drop_left]
  have short : a.length < 9 := by
    have total : sudoOption.length = 8 := by decide
    have bound := congrArg List.length split
    rw [List.length_append] at bound
    omega
  rw [← front, ← back]
  apply table a.length short
  rw [front, Option.all_eq_true]
  exact edge

/-- The texts end in the same character or both in a blank, or both are empty. -/
def SameEnd (a' a : Str) : Prop :=
  a'.getLast? = a.getLast? ∨ a'.getLast?.any isSpace = true ∧ a.getLast?.any isSpace = true

theorem sameEnd_append {front' front back' back : Str} (first : SameEnd front' front)
    (second : SameEnd back' back) : SameEnd (front' ++ back') (front ++ back) := by
  unfold SameEnd at *
  cases back' using List.reverseRecOn with
  | nil =>
      cases back using List.reverseRecOn with
      | nil => simpa using first
      | append_singleton back c => simp at second
  | append_singleton back' d =>
      cases back using List.reverseRecOn with
      | nil => simp at second
      | append_singleton back c => simpa [← List.append_assoc] using second

theorem sameEnd_sudo {blanks : Str} (some : blanks ≠ [])
    (spaces : ∀ c ∈ blanks, isSpace c = true) : SameEnd (sudoWord ++ blanks) sudoOption := by
  refine .inr ⟨?_, by decide⟩
  rw [List.getLast?_append_of_ne_nil sudoWord some, List.getLast?_eq_some_getLast some]
  exact spaces _ (List.getLast_mem some)

theorem sameEnd_closed {a' a : Str} (same : SameEnd a' a)
    (closed : Shell.Closed isCommandStart a) : Shell.Closed isCommandStart a' := by
  intro c last
  rcases same with equal | ⟨blank, -⟩
  · exact closed c (equal ▸ last)
  · rw [last, Option.any_some] at blank
    rw [isCommandStart, blank, Bool.true_or, Bool.true_or, Bool.true_or]

/-- No replaced `sudo` begins in the first text and ends in the second. -/
def Outside (a w : Str) : Prop :=
  ∀ u v, sudoOption = u ++ v → u ≠ [] → v ≠ [] → u <:+ a → ¬ v <+: w

theorem outside_right {x a w : Str} (outside : Outside (x ++ a) w) : Outside a w :=
  fun u v parts some more ending =>
    outside u v parts some more (ending.trans (List.suffix_append x a))

theorem rewritten_place {before s out a w : Str}
    (rewritten : Rewritten before s out) (split : out = a ++ w) (outside : Outside a w) :
    ∃ a' s', s = a' ++ s' ∧ Rewritten (a'.reverse ++ before) s' w ∧ SameEnd a' a := by
  induction rewritten generalizing a with
  | nil before =>
      obtain ⟨rfl, rfl⟩ := List.append_eq_nil_iff.mp split.symm
      exact ⟨[], [], rfl, .nil _, .inl rfl⟩
  | @copy before s out c rest ih =>
      cases a with
      | nil =>
          rw [List.nil_append] at split
          exact ⟨[], c :: s, rfl, split ▸ .copy c rest, .inl rfl⟩
      | cons d a =>
          obtain ⟨rfl, tail⟩ := List.cons.inj split
          obtain ⟨a', s', rfl, kept, same⟩ := ih tail (outside_right (x := [c]) outside)
          have whole : SameEnd ([c] ++ a') ([c] ++ a) := sameEnd_append (.inl rfl) same
          exact ⟨[c] ++ a', s', rfl, by simpa using kept, whole⟩
  | @replaced before s out blanks some spaces _ rest ih =>
      have beyond {a : Str} (tail : out = a ++ w) (outside : Outside a w) :
          ∃ a' s', sudoWord ++ blanks ++ s = a' ++ s' ∧
            Rewritten (a'.reverse ++ before) s' w ∧ SameEnd a' (sudoOption ++ a) := by
        obtain ⟨a', s', rfl, kept, same⟩ := ih tail outside
        exact ⟨(sudoWord ++ blanks) ++ a', s', by simp, by simpa using kept,
          sameEnd_append (sameEnd_sudo some spaces) same⟩
      rcases List.append_eq_append_iff.mp split with ⟨a', rfl, tail⟩ | ⟨v, inside, rfl⟩
      · exact beyond tail (outside_right outside)
      · by_cases front : a = []
        · subst front
          rw [List.nil_append] at inside
          exact ⟨[], _, rfl, inside ▸ .replaced blanks some spaces trivial rest, .inl rfl⟩
        · by_cases back : v = []
          · subst back
            rw [List.append_nil] at inside
            have later := beyond (a := []) rfl fun u v parts nonempty more ending =>
              absurd (List.suffix_nil.mp ending) nonempty
            rw [List.append_nil, inside] at later
            exact later
          · exact absurd (List.prefix_append v out) (outside a v inside front back List.suffix_rfl)

theorem outside_start {a w : Str} (edge : Shell.Closed isCommandStart a)
    (undashed : w.head? ≠ some '-') : Outside a w := by
  intro u v parts some more ending inside
  obtain ⟨front, rfl⟩ := ending
  rcases sudoOption_edge parts (Shell.closed_right edge) with none | option | none
  · exact some none
  · rcases inside with ⟨tail, text⟩
    rw [← text, option] at undashed
    exact undashed rfl
  · exact more none

theorem rewritten_head {before s b : Str} (rewritten : Rewritten before s b) :
    s.head? = b.head? := by
  cases rewritten with
  | nil => rfl
  | copy c rest => rfl
  | replaced blanks some spaces _ rest => rfl

section NoSudo

theorem noSudo_append {v w b : Str} (first : NoSudo v (w ++ b)) (second : NoSudo w b) :
    NoSudo (v ++ w) b := by
  intro x y split some
  rcases List.append_eq_append_iff.mp split with ⟨z, -, rest⟩ | ⟨z, front, rfl⟩
  · exact second z y rest some
  · by_cases empty : z = []
    · subst empty
      exact second [] w rfl some
    · rw [List.append_assoc]
      exact first x z front empty

theorem noSudo_of_notMem {w b : Str} (free : 's' ∉ w) : NoSudo w b := by
  intro x y equal some given
  subst equal
  rcases given with ⟨rest, text⟩
  rw [sudoOption_eq] at text
  cases y with
  | nil => exact some rfl
  | cons c y =>
      obtain ⟨rfl, -⟩ := List.cons.inj text
      exact free (by simp)

theorem noSudo_word {w b : Str} (word : ' ' ∉ w) (next : ∀ c ∈ ['u', 'd', 'o'], b.head? ≠ some c)
    (other : ¬ sudoWord <:+ w ∨ ¬ [' ', '-'] <+: b) : NoSudo w b := by
  intro x y equal some given
  subst equal
  rcases given with ⟨rest, text⟩
  rw [sudoOption_eq] at text
  simp only [List.cons_append, List.nil_append] at text
  match y with
  | [] => exact some rfl
  | [_] =>
      have tail : _ = b := (List.cons.inj text).2
      exact next 'u' (by simp) (congrArg List.head? tail.symm)
  | [_, _] =>
      have tail : _ = b := (List.cons.inj (List.cons.inj text).2).2
      exact next 'd' (by simp) (congrArg List.head? tail.symm)
  | [_, _, _] =>
      have tail : _ = b := (List.cons.inj (List.cons.inj (List.cons.inj text).2).2).2
      exact next 'o' (by simp) (congrArg List.head? tail.symm)
  | [p, q, r, t] =>
      simp only [List.cons_append, List.nil_append, List.cons.injEq] at text
      obtain ⟨rfl, rfl, rfl, rfl, rfl⟩ := text
      rcases other with ending | option
      · exact ending ⟨x, rfl⟩
      · exact option ⟨_, rfl⟩
  | p :: q :: r :: t :: u :: y =>
      simp only [List.cons_append, List.cons.injEq] at text
      obtain ⟨-, -, -, -, rfl, -⟩ := text
      exact word (by simp)

end NoSudo

end SmolNas.App
