import SmolNas.App.SudoRewrite

/-! The options of the `sudo` words in the script that runs. -/

namespace SmolNas.App

open Py Lib

/-- Every `sudo` word with blanks after it has an option after them that starts with `-n`. -/
def OptionsGiven (db : CharData) (script : Str) : Prop :=
  ∀ a b, script = a ++ (sudoWord ++ b) → a.getLast?.any db.isWord = false →
    b.head?.any isSpace = true → "-n".toList <+: lstrip b

section Options

variable {db : CharData}

theorem sudoRe_found {before b : Str} (word : before.head?.any db.isWord = false)
    (blank : b.head?.any isSpace = true) (plain : ¬ "-n".toList <+: lstrip b) :
    (sudoRe db).run before (sudoWord ++ b) ≠ [] := by
  have edge : (Re.boundary db).Matches before (sudoWord ++ b) before (sudoWord ++ b) := by
    apply Re.matches_test
    have letter : (sudoWord ++ b).head?.any db.isWord = true := by
      change db.isWord 's' = true
      simp [CharData.isWord, db.isAlnum_ascii 's' (by decide)]
    rw [word, letter]
    rfl
  have ahead : (Re.notAhead optionRe).Matches (sudoWord.reverse ++ before) b
      (sudoWord.reverse ++ before) b := by
    apply Re.matches_test
    rw [List.isEmpty_iff]
    by_contra found
    exact plain ((optionRe_found_iff _ b).mp found).2
  exact List.ne_nil_of_mem (Re.matches_seq edge
    (Re.matches_seq (Re.matches_lit sudoWord) (Re.matches_seq ahead (matches_blanks _ blank))))

theorem rewritten_copies {before w t out : Str} (free : 's' ∉ w)
    (rewritten : Rewritten before (w ++ t) out) :
    ∃ out', out = w ++ out' ∧ Rewritten (w.reverse ++ before) t out' := by
  induction w generalizing before out with
  | nil => exact ⟨out, rfl, rewritten⟩
  | cons c w ih =>
      generalize same : c :: w ++ t = s at rewritten
      cases rewritten with
      | nil => cases same
      | copy c rest =>
          cases same
          obtain ⟨out', rfl, later⟩ := ih (fun member => free (by simp [member])) rest
          exact ⟨out', rfl, by simpa using later⟩
      | replaced blanks some spaces _ rest =>
          obtain ⟨rfl, -⟩ := List.cons.inj same
          exact absurd List.mem_cons_self free

theorem head_blanks (db : CharData) {blanks : Str} (rest : Str) (some : blanks ≠ [])
    (spaces : ∀ c ∈ blanks, isSpace c = true) :
    ((sudoWord ++ blanks).reverse ++ rest).head?.any db.isWord = false := by
  cases blanks using List.reverseRecOn with
  | nil => exact absurd rfl some
  | append_singleton blanks c =>
      have space := spaces c (by simp)
      simp [db.isWord_space space]

theorem sudoOption_tail {u v : Str} (split : sudoOption = u ++ v) (some : u ≠ []) : 's' ∉ v := by
  cases u with
  | nil => exact absurd rfl some
  | cons c u =>
      have rest : "udo -n ".toList = u ++ v := (List.cons.inj split).2
      intro member
      have inside : 's' ∈ "udo -n ".toList := by
        rw [rest]
        exact List.mem_append_right u member
      revert inside
      decide

theorem option_kept {before s b : Str}
    (rewritten : Rewritten ('s' :: before) s ("udo".toList ++ b))
    (word : before.head?.any db.isWord = false) (blank : b.head?.any isSpace = true)
    (stays : (sudoRe db).run before ('s' :: s) = []) : "-n".toList <+: lstrip b := by
  obtain ⟨b', rfl, later⟩ := rewritten_keeps rewritten (noSudo_of_notMem (by decide))
  have same := rewritten_head later
  have option : "-n".toList <+: lstrip b' := by
    by_contra plain
    exact sudoRe_found word (same ▸ blank) plain stays
  obtain ⟨tail, text⟩ := option
  have whole : b' = (b'.takeWhile isSpace ++ "-n".toList) ++ tail := by
    rw [List.append_assoc, text]
    exact List.takeWhile_append_dropWhile.symm
  have spaces : ∀ c ∈ b'.takeWhile isSpace, isSpace c = true :=
    fun c member => List.mem_takeWhile_imp member
  rw [whole] at later
  obtain ⟨out, rfl, -⟩ := rewritten_copies (by
    intro member
    rcases List.mem_append.mp member with inside | inside
    · exact absurd (spaces 's' inside) (by decide)
    · exact absurd inside (by decide)) later
  rw [List.append_assoc, lstrip_blanks spaces]
  exact ⟨out, rfl⟩

theorem subFrom_options (fuel : Nat) (before before' s : Str) (enough : s.length ≤ fuel)
    (edge : before'.head?.any db.isWord = before.head?.any db.isWord) (a b : Str)
    (split : (sudoRe db).subFrom sudoOption fuel before s = a ++ (sudoWord ++ b))
    (word : (a.reverse ++ before').head?.any db.isWord = false)
    (blank : b.head?.any isSpace = true) : "-n".toList <+: lstrip b := by
  induction fuel generalizing before before' s a with
  | zero =>
      rw [List.length_eq_zero_iff.mp (Nat.le_zero.mp enough), Re.subFrom] at split
      simp [sudoWord] at split
  | succ fuel ih =>
      cases s with
      | nil => simp [Re.subFrom, sudoWord] at split
      | cons c s =>
          rw [List.length_cons] at enough
          rcases subFrom_step db fuel before c s with
            ⟨stays, out⟩ | ⟨blanks, rest, some, spaces, -, -, shorter, out⟩
          · rw [out] at split
            cases a with
            | nil =>
                have letter : c = 's' := (List.cons.inj split).1
                have later : _ = "udo".toList ++ b := (List.cons.inj split).2
                subst letter
                have rewritten : Rewritten ('s' :: before) s
                    ((sudoRe db).subFrom sudoOption fuel ('s' :: before) s) :=
                  (optioned_subFrom db fuel ('s' :: before) s (by omega)).mono fun _ _ => trivial
                rw [later] at rewritten
                exact option_kept rewritten (edge ▸ word) blank stays
            | cons d a =>
                obtain ⟨rfl, later⟩ := List.cons.inj split
                exact ih (c :: before) (c :: before') s (by omega) rfl a later (by simpa using word)
          · have past := head_blanks db before some spaces
            rw [out] at split
            have beyond (a' : Str) (whole : a = sudoOption ++ a')
                (later : (sudoRe db).subFrom sudoOption fuel
                  ((sudoWord ++ blanks).reverse ++ before) rest = a' ++ (sudoWord ++ b)) :
                "-n".toList <+: lstrip b := by
              refine ih _ (sudoOption.reverse ++ before') rest (by omega) ?_ a' later ?_
              · rw [past]
                exact db.isWord_space (by decide)
              · rw [whole, List.reverse_append, List.append_assoc] at word
                exact word
            rcases List.append_eq_append_iff.mp split with ⟨a', whole, later⟩ | ⟨v, inside, later⟩
            · exact beyond a' whole later
            · by_cases first : a = []
              · subst first
                rw [List.nil_append] at inside split
                have rest : sudoWord ++ b = sudoWord ++ (" -n ".toList ++ _) := split.symm
                rw [List.append_cancel_left rest]
                exact ⟨_, rfl⟩
              · cases v with
                | nil => exact beyond [] (by rw [inside]; simp) (by simpa using later.symm)
                | cons d v =>
                    have letter : 's' = d := (List.cons.inj later).1
                    exact absurd (letter ▸ List.mem_cons_self) (sudoOption_tail inside first)

theorem sudoRewrite_options (db : CharData) (script : Str) :
    OptionsGiven db (sudoRewrite db script) := by
  intro a b split word blank
  refine subFrom_options script.length [] [] script (Nat.le_refl _) rfl a b split ?_ blank
  rw [List.append_nil, List.head?_reverse]
  exact word

theorem sudoRewrite_fixed {script : Str} (given : OptionsGiven db script) :
    sudoRewrite db script = script := by
  apply Re.subFrom_none
  intro a b split
  rw [List.append_nil]
  by_contra found
  obtain ⟨m, member⟩ := List.exists_mem_of_ne_nil _ found
  obtain ⟨blanks, some, spaces, text, -, word, plain⟩ := run_sudoRe member
  rw [text, List.append_assoc] at split
  rw [List.head?_reverse] at word
  have blank : (blanks ++ m.2).head?.any isSpace = true := by
    cases blanks with
    | nil => exact absurd rfl some
    | cons c blanks => exact spaces c (by simp)
  have option := given a (blanks ++ m.2) split word blank
  rw [lstrip_blanks spaces] at option
  exact plain option

end Options

end SmolNas.App
