import SmolNas.App.DenyFilter
import SmolNas.App.SudoOptions

/-! The script that runs, in lower case, is a rewrite of the script that the filter reads,
so that a pattern that matches in the one matches in the other. -/

namespace SmolNas.App

open Py Lib

variable {db : CharData}

section Lower

theorem agree_append (x : Str) {s t : Str} (agree : AgreeToBlank s t) :
    AgreeToBlank (x ++ s) (x ++ t) := by
  rcases agree with rfl | ⟨y, c, d, u, v, first, second, rfl, rfl⟩
  · exact .inl rfl
  · exact .inr ⟨x ++ y, c, d, u, v, first, second, by simp, by simp⟩

theorem agree_rewritten {before s out : Str} (rewritten : Rewritten before s out) :
    AgreeToBlank s out := by
  induction rewritten with
  | nil before => exact .inl rfl
  | copy c rest ih => exact agree_append [c] ih
  | @replaced before s out blanks some spaces _ rest ih =>
      cases blanks with
      | nil => exact absurd rfl some
      | cons c blanks =>
          exact .inr ⟨sudoWord, c, ' ', blanks ++ s, "-n ".toList ++ out, spaces c (by simp),
            by decide, by simp, rfl⟩

theorem rewritten_append (w : Str) {before s out : Str}
    (rewritten : Rewritten (w.reverse ++ before) s out) :
    Rewritten before (w ++ s) (w ++ out) := by
  induction w generalizing before with
  | nil => exact rewritten
  | cons c w ih =>
      apply SudoReplaced.copy
      apply ih
      simpa using rewritten

theorem rewritten_lowerFrom (nearby : db.LowerLocal) {before s out : Str}
    (rewritten : Rewritten before s out) (front front' : Str) (agree : AgreeToBlank front front')
    (past : Str) : Rewritten past (db.lowerFrom front s) (db.lowerFrom front' out) := by
  induction rewritten generalizing front front' past with
  | nil before => exact .nil past
  | @copy before s out c rest ih =>
      rw [CharData.lowerFrom, CharData.lowerFrom,
        nearby front front' c s out agree (agree_rewritten rest)]
      apply rewritten_append
      exact ih (c :: front) (c :: front') (agree_append [c] agree) _
  | @replaced before s out blanks some spaces _ rest ih =>
      have fixed : ∀ c ∈ sudoWord ++ blanks, db.Fixed c := by
        intro c member
        rcases List.mem_append.mp member with letter | blank
        · have small : ∀ d ∈ sudoWord, d.toNat < 128 ∧ ¬(65 ≤ d.toNat ∧ d.toNat ≤ 90) :=
            List.all_iff_forall_prop.mp (by decide)
          exact db.fixed_of_ascii (small c letter).1 (small c letter).2
        · exact db.fixed_of_space (spaces c blank)
      have option : ∀ c ∈ sudoOption, db.Fixed c := by
        have small : ∀ d ∈ sudoOption, d.toNat < 128 ∧ ¬(65 ≤ d.toNat ∧ d.toNat ≤ 90) :=
          List.all_iff_forall_prop.mp (by decide)
        exact fun c member => db.fixed_of_ascii (small c member).1 (small c member).2
      rw [db.lowerFrom_fixed front (sudoWord ++ blanks) s fixed,
        db.lowerFrom_fixed front' sudoOption out option]
      refine .replaced blanks some spaces trivial (ih _ _ ?_ _)
      cases blanks using List.reverseRecOn with
      | nil => exact absurd rfl some
      | append_singleton blanks c =>
          exact .inr ⟨[], c, ' ', _, _, spaces c (by simp), by decide,
            by rw [← List.append_assoc, List.reverse_append]; rfl, rfl⟩

theorem rewritten_lower (nearby : db.LowerLocal) (script : Str) :
    Rewritten [] (db.lower script) (db.lower (sudoRewrite db script)) :=
  rewritten_lowerFrom nearby (rewritten_sudoRewrite db script) [] [] (.inl rfl) []

end Lower

section Back

variable {t : Re} {lc out a w b : Str}

theorem rewritten_back (rewritten : Rewritten [] lc out) (split : out = a ++ (w ++ b))
    (outside : Outside a (w ++ b)) (free : NoSudo w b) :
    ∃ a' b' past, lc = a' ++ (w ++ b') ∧ SameEnd a' a ∧ Rewritten past b' b := by
  obtain ⟨a', s', rfl, cut, same⟩ := rewritten_place rewritten split outside
  obtain ⟨b', rfl, later⟩ := rewritten_keeps cut free
  exact ⟨a', b', _, rfl, same, later⟩

theorem sameEnd_isWord {a' : Str} (same : SameEnd a' a) :
    a'.getLast?.any db.isWord = a.getLast?.any db.isWord := by
  have plain {s : Str} (blank : s.getLast?.any isSpace = true) :
      s.getLast?.any db.isWord = false := by
    obtain ⟨c, last, space⟩ := (Option.any_eq_true _ _).mp blank
    rw [last]
    exact db.isWord_space space
  rcases same with equal | ⟨first, second⟩
  · rw [equal]
  · rw [plain first, plain second]

/-- The pattern looks around with `\b` and `$` only. -/
def EdgeTests (db : CharData) (t : Re) : Prop :=
  ∀ q ∈ t.tests, q ∈ (Re.boundary db).tests ++ Re.eol.tests

theorem edgeTests_boundary (tests : t.tests = (Re.boundary db).tests) : EdgeTests db t := by
  intro q member
  rw [tests] at member
  exact List.mem_append_left _ member

theorem edgeTests_eol (tests : t.tests = Re.eol.tests) : EdgeTests db t := by
  intro q member
  rw [tests] at member
  exact List.mem_append_right _ member

theorem edgeTests_none (tests : t.tests = []) : EdgeTests db t := by
  intro q member
  rw [tests] at member
  cases member

theorem rewritten_long {past s : Str} (rewritten : Rewritten past s out) :
    s = out ∨ 2 ≤ s.length ∧ 2 ≤ out.length := by
  have four (rest : Str) : 2 ≤ (sudoWord ++ rest).length := by
    rw [List.length_append, show sudoWord.length = 4 by decide]
    omega
  have eight (rest : Str) : 2 ≤ (sudoOption ++ rest).length := by
    rw [List.length_append, show sudoOption.length = 8 by decide]
    omega
  cases rewritten with
  | nil => exact .inl rfl
  | copy c rest =>
      cases rest with
      | nil => exact .inl rfl
      | copy d rest => exact .inr ⟨by simp, by simp⟩
      | replaced blanks some spaces _ rest =>
          rw [List.append_assoc]
          exact .inr ⟨Nat.le_succ_of_le (four _), Nat.le_succ_of_le (eight _)⟩
  | replaced blanks some spaces _ rest =>
      rw [List.append_assoc]
      exact .inr ⟨four _, eight _⟩

theorem stable_back {a' b' past : Str} (edges : EdgeTests db t) (same : SameEnd a' a)
    (later : Rewritten past b' b) : t.Stable w a.reverse b a'.reverse b' := by
  intro q member x y _
  have head := rewritten_head later
  rcases List.mem_append.mp (edges q member) with boundary | eol
  · rw [List.mem_singleton.mp boundary]
    dsimp only
    rw [List.head?_append, List.head?_append, List.head?_append, List.head?_append, head,
      List.head?_reverse, List.head?_reverse, List.head?_reverse]
    cases x.getLast? with
    | none => rw [Option.none_or, Option.none_or, sameEnd_isWord same]
    | some c => rfl
  · rw [List.mem_singleton.mp eol]
    have beyond {s : Str} (long : 2 ≤ s.length) : (y ++ s == [] || y ++ s == ['\n']) = false := by
      rw [Bool.or_eq_false_iff, beq_eq_false_iff_ne, beq_eq_false_iff_ne]
      constructor <;> intro equal <;> have size := congrArg List.length equal <;>
        simp only [List.length_append, List.length_cons, List.length_nil] at size <;> omega
    rcases rewritten_long later with equal | ⟨first, second⟩
    · rw [equal]
    · exact (beyond second).trans (beyond first).symm

theorem text_back (rewritten : Rewritten [] lc out) (split : out = a ++ (w ++ b))
    (found : t.MatchesText a.reverse w b) (edges : EdgeTests db t)
    (outside : Outside a (w ++ b)) (free : NoSudo w b) :
    ∃ a' b', lc = a' ++ (w ++ b') ∧ SameEnd a' a ∧ t.MatchesText a'.reverse w b' := by
  obtain ⟨a', b', past, text, same, later⟩ := rewritten_back rewritten split outside free
  exact ⟨a', b', text, same, Re.text_moved (stable_back edges same later) found⟩

theorem commandStart_found {s : Str} (found : (Re.seq commandStart t).search s = true) :
    ∃ a w b, s = a ++ (w ++ b) ∧ Shell.Closed isCommandStart a ∧
      t.MatchesText a.reverse w b := by
  obtain ⟨a, b, rfl, run⟩ := (Re.searchFrom_iff [] s).mp found
  rw [List.append_nil] at run
  obtain ⟨m, member⟩ := List.exists_mem_of_ne_nil _ run
  obtain ⟨k, start, later⟩ := List.mem_flatMap.mp member
  obtain ⟨front, whole, closed, place⟩ : ∃ front, a ++ b = front ++ k.2 ∧
      Shell.Closed isCommandStart front ∧ k.1 = front.reverse := by
    rcases List.mem_append.mp start with first | inner
    · rw [Re.bol, Re.run] at first
      split at first
      next empty =>
        rw [List.mem_singleton] at first
        have none : a = [] := List.reverse_eq_nil_iff.mp (List.isEmpty_iff.mp empty)
        subst first none
        exact ⟨[], rfl, Shell.closed_nil, rfl⟩
      next => cases first
    · cases b with
      | nil => cases inner
      | cons c b =>
          rw [Re.run] at inner
          split at inner
          next holds =>
            rw [List.mem_singleton] at inner
            subst inner
            exact ⟨a ++ [c], by simp, Shell.closed_concat holds, by simp⟩
          next => cases inner
  obtain ⟨w, text, -, matched⟩ := Re.run_text later
  rw [place] at matched
  exact ⟨front, w, m.2, by rw [whole, text], closed, matched⟩

end Back

end SmolNas.App
