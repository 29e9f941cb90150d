import SmolNas.App.Removal
import SmolNas.App.RewriteBack

/-! The deny filter on the script that runs: it finds nothing there that it has not found
in the script before the rewrite. -/

namespace SmolNas.App

open Py Lib

variable {db : CharData} {lc out : Str}

section Words

theorem text_oneOfWords {words : List Str} {before w s : Str}
    (found : (oneOfWords words).MatchesText before w s) : w ∈ words := by
  induction words with
  | nil =>
      obtain ⟨c, -, holds⟩ := Re.text_one found
      cases holds
  | cons word words ih =>
      cases words with
      | nil => exact List.mem_singleton.mpr (Re.text_lit found)
      | cons other words =>
          rcases List.mem_append.mp found with first | later
          · rw [Re.text_lit first]
            exact List.mem_cons_self
          · exact List.mem_cons_of_mem _ (ih later)

theorem text_space {before w s : Str} (found : Re.space.MatchesText before w s) :
    ∃ c, w = [c] ∧ isSpace c = true :=
  Re.text_one found

theorem notMem_spaces {w : Str} (spaces : ∀ c ∈ w, isSpace c = true) : 's' ∉ w :=
  fun member => absurd (spaces 's' member) (by decide)

theorem wipe_back (rewritten : Rewritten [] lc out) (found : (wipeRe db).search out = true) :
    (wipeRe db).search lc = true := by
  obtain ⟨a, w, b, split, closed, text⟩ := commandStart_found found
  obtain ⟨v, u, rfl, word, edge⟩ := Re.text_seq text
  obtain ⟨rfl, boundary⟩ := Re.text_test edge
  have known : v ∈ wipeWords ++ powerWords := List.mem_append_left _ (text_oneOfWords word)
  have next : b.head?.any db.isWord = false := by
    rw [head_wordChar known] at boundary
    simpa using boundary
  rw [List.append_nil] at split text
  obtain ⟨a', b', rfl, same, back⟩ := text_back rewritten split text
    (edgeTests_boundary rfl) (outside_start closed (word_undashed known b)) (word_noSudo known next)
  exact search_commandStart (sameEnd_closed same closed) back

theorem power_back (db : CharData) (rewritten : Rewritten [] lc out)
    (found : powerRe.search out = true) : powerRe.search lc = true := by
  obtain ⟨a, w, b, split, closed, text⟩ := commandStart_found found
  obtain ⟨v, u, rfl, word, blank⟩ := Re.text_seq text
  obtain ⟨c, rfl, space⟩ := text_space blank
  have known : v ∈ wipeWords ++ powerWords := List.mem_append_right _ (text_oneOfWords word)
  have first : NoSudo v ([c] ++ b) := word_noSudo known (db.isWord_space space)
  have second : NoSudo [c] b := noSudo_of_notMem (notMem_spaces (by simpa using space))
  obtain ⟨a', b', rfl, same, back⟩ := text_back rewritten split text
    (show EdgeTests db _ from edgeTests_none rfl)
    (by rw [List.append_assoc]; exact outside_start closed (word_undashed known _))
    (noSudo_append first second)
  exact search_commandStart (sameEnd_closed same closed) back

end Words

section Plain

theorem outside_pair {a b : Str} {c d : Char} (last : c ≠ ' ')
    (pair : ¬ [c, d] <:+: sudoOption) : Outside a (c :: d :: b) := by
  intro u v parts _ more _ inside
  match v, inside with
  | [], _ => exact more rfl
  | [x], given =>
      obtain ⟨tail, text⟩ := given
      have same : x = c := (List.cons.inj text).1
      have ending : sudoOption.getLast? = some x := by rw [parts, List.getLast?_concat]
      have blank : sudoOption.getLast? = some ' ' := by decide
      rw [blank] at ending
      exact last (same.symm.trans (Option.some.inj ending).symm)
  | x :: y :: v, given =>
      obtain ⟨tail, text⟩ := given
      simp only [List.cons_append, List.cons.injEq] at text
      obtain ⟨rfl, rfl, -⟩ := text
      exact pair ⟨u, v, by rw [parts]; simp⟩

theorem dd_back (rewritten : Rewritten [] lc out) (found : (ddRe db).search out = true) :
    (ddRe db).search lc = true := by
  obtain ⟨a, w, b, split, text⟩ := Re.search_text found
  have free : 's' ∉ w := by
    have blank : ∀ c, isSpace c = true → c ≠ 's' := by
      intro c space equal
      subst equal
      exact absurd space (by decide)
    have inside : (ddRe db).Within (· ≠ 's') :=
      ⟨trivial, Re.within_lit (List.all_iff_forall_prop.mp (by decide)), ⟨blank, blank⟩,
        Re.within_lit (List.all_iff_forall_prop.mp (by decide))⟩
    exact fun member => Re.text_within inside text 's' member rfl
  obtain ⟨v, u, rfl, edge, rest⟩ := Re.text_seq text
  obtain ⟨rfl, -⟩ := Re.text_test edge
  obtain ⟨x, y, rfl, word, -⟩ := Re.text_seq rest
  have outside : Outside a (x ++ y ++ b) := by
    rw [Re.text_lit word]
    exact outside_pair (by decide) (by decide)
  obtain ⟨a', b', rfl, same, back⟩ := text_back rewritten split text
    (edgeTests_boundary rfl) outside (noSudo_of_notMem free)
  exact Re.search_of_matches _ _ back

theorem bomb_back (rewritten : Rewritten [] lc out)
    (found : contains out [':', '(', ')', '\x7b'] = true) :
    contains lc [':', '(', ')', '\x7b'] = true := by
  obtain ⟨a, b, split⟩ := of_decide_eq_true found
  rw [List.append_assoc] at split
  obtain ⟨a', b', -, rfl, -⟩ := rewritten_back rewritten split.symm
    (outside_pair (by decide) (by decide)) (noSudo_of_notMem (by decide))
  exact decide_eq_true ⟨a', b', by simp⟩

end Plain

section Letters

theorem noSudo_letters {l blanks b : Str} (lower : ∀ c ∈ l, isLower c = true)
    (undashed : b.head? ≠ some '-') (some : blanks ≠ [])
    (spaces : ∀ c ∈ blanks, isSpace c = true) : NoSudo (l ++ blanks) b := by
  refine noSudo_append ?_ (noSudo_of_notMem (notMem_spaces spaces))
  cases blanks with
  | nil => exact absurd rfl some
  | cons c blanks =>
      have space := spaces c List.mem_cons_self
      apply noSudo_word
      · exact fun member => absurd (lower ' ' member) (by decide)
      · intro d member first
        have same : c = d := Option.some.inj first
        subst same
        have other : ∀ d ∈ ['u', 'd', 'o'], isSpace d = false :=
          List.all_iff_forall_prop.mp (by decide)
        rw [other c member] at space
        cases space
      · right
        intro given
        obtain ⟨tail, text⟩ := given
        have rest : '-' :: tail = blanks ++ b := (List.cons.inj text).2
        cases blanks with
        | nil => exact undashed (congrArg List.head? rest).symm
        | cons d blanks =>
            have dash : '-' = d := (List.cons.inj rest).1
            exact absurd (spaces d (by simp)) (by rw [← dash]; decide)

theorem text_lowers {before w s : Str} (found : (Re.star (.one isLower)).MatchesText before w s) :
    ∀ c ∈ w, isLower c = true := by
  have inside : (Re.star (.one isLower)).Within fun c => isLower c = true := fun _ lower => lower
  exact Re.text_within inside found

theorem slashWord_noSudo {before w b : Str} (undashed : b.head? ≠ some '-')
    (found : slashWordRe.MatchesText before w b) :
    NoSudo w b ∧ (w ++ b).head? ≠ some '-' := by
  obtain ⟨slash, rest, rfl, first, rest⟩ := Re.text_seq found
  obtain ⟨dashes, rest, rfl, second, rest⟩ := Re.text_seq rest
  obtain ⟨letters, blanks, rfl, third, last⟩ := Re.text_seq rest
  have root : slash = ['/'] := Re.text_lit first
  have dash : ∀ c ∈ dashes, c = '-' := by
    have inside : (Re.star (.one (· == '-'))).Within (· = '-') := fun c same => beq_iff_eq.mp same
    exact Re.text_within inside second
  obtain ⟨some, spaces⟩ := Re.text_spaces last
  subst root
  refine ⟨?_, by simp⟩
  apply noSudo_append (noSudo_of_notMem (by decide))
  apply noSudo_append (noSudo_of_notMem fun member => absurd (dash 's' member) (by decide))
  exact noSudo_letters (text_lowers third) undashed some spaces

theorem slashWords_noSudo {before w b : Str} (undashed : b.head? ≠ some '-')
    (found : (Re.star slashWordRe).MatchesText before w b) :
    NoSudo w b ∧ (w ++ b).head? ≠ some '-' := by
  -- the induction is on the length of the words
  induction size : w.length using Nat.strong_induction_on generalizing before w with
  | _ n ih =>
      subst size
      rcases Re.text_star found with rfl | ⟨v, u, rfl, some, first, later⟩
      · exact ⟨noSudo_of_notMem (by simp), undashed⟩
      · have positive := List.length_pos_of_ne_nil some
        obtain ⟨free, next⟩ := ih u.length (by rw [List.length_append]; omega) later rfl
        obtain ⟨word, head⟩ := slashWord_noSudo next first
        rw [List.append_assoc]
        exact ⟨noSudo_append word free, head⟩

theorem rootRe_noSudo {before w b : Str} (found : rootRe.MatchesText before w b) :
    NoSudo w b ∧ (w ++ b).head? ≠ some '-' := by
  obtain ⟨words, rest, rfl, first, rest⟩ := Re.text_seq found
  obtain ⟨slashes, last, rfl, second, ending⟩ := Re.text_seq rest
  have slash : ∀ c ∈ slashes, c = '/' := by
    have inside : (Re.star (.one (· == '/'))).Within (· = '/') := fun c same => beq_iff_eq.mp same
    exact Re.text_within inside second
  have stop : 's' ∉ last ∧ (last ++ b).head? ≠ some '-' := by
    rcases List.mem_append.mp ending with blank | end'
    · obtain ⟨c, rfl, space⟩ := text_space blank
      constructor
      · exact notMem_spaces (by simpa using space)
      · intro dash
        have same : c = '-' := Option.some.inj dash
        rw [same] at space
        exact absurd space (by decide)
    · obtain ⟨rfl, holds⟩ := Re.text_test end'
      refine ⟨by simp, ?_⟩
      rw [Bool.or_eq_true, beq_iff_eq, beq_iff_eq] at holds
      rcases holds with rfl | rfl <;> decide
  have undashed : (slashes ++ last ++ b).head? ≠ some '-' := by
    cases slashes with
    | nil => exact stop.2
    | cons c slashes =>
        rw [slash c List.mem_cons_self]
        simp
  have tail : NoSudo (slashes ++ last) b := by
    apply noSudo_of_notMem
    intro member
    rcases List.mem_append.mp member with inside | inside
    · exact absurd (slash 's' inside) (by decide)
    · exact stop.1 inside
  obtain ⟨free, head⟩ := slashWords_noSudo undashed first
  rw [List.append_assoc]
  exact ⟨noSudo_append free tail, head⟩

theorem removalRe_noSudo {before w b : Str} (found : removalRe.MatchesText before w b) :
    NoSudo w b ∧ (w ++ b).head? = some 'r' := by
  obtain ⟨word, rest, rfl, first, rest⟩ := Re.text_seq found
  obtain ⟨gap, rest, rfl, second, rest⟩ := Re.text_seq rest
  obtain ⟨dash, rest, rfl, third, rest⟩ := Re.text_seq rest
  obtain ⟨x, rest, rfl, lowers, rest⟩ := Re.text_seq rest
  obtain ⟨r, rest, rfl, letter, rest⟩ := Re.text_seq rest
  obtain ⟨y, rest, rfl, lowers', rest⟩ := Re.text_seq rest
  obtain ⟨f, rest, rfl, option, rest⟩ := Re.text_seq rest
  obtain ⟨blanks, root, rfl, fourth, last⟩ := Re.text_seq rest
  have rm : word = "rm".toList := Re.text_lit first
  have minus : dash = ['-'] := Re.text_lit third
  have recursive : r = ['r'] := Re.text_lit letter
  have force : ∀ c ∈ f, isLower c = true := by
    have inside : (Re.opt (.lit ['f'])).Within fun c => isLower c = true :=
      ⟨Re.within_lit (List.all_eq_true.mp (by decide)), trivial⟩
    exact Re.text_within inside option
  obtain ⟨free, undashed⟩ := rootRe_noSudo last
  obtain ⟨some, spaces⟩ := Re.text_spaces fourth
  subst rm minus recursive
  refine ⟨?_, rfl⟩
  have flag : NoSudo ((x ++ (['r'] ++ (y ++ f))) ++ blanks) (root ++ b) := by
    refine noSudo_letters ?_ undashed some spaces
    intro c member
    simp only [List.mem_append, List.mem_singleton] at member
    rcases member with first | rfl | second | third
    · exact text_lowers lowers c first
    · decide
    · exact text_lowers lowers' c second
    · exact force c third
  have whole := noSudo_append flag free
  simp only [List.append_assoc] at whole
  apply noSudo_append (noSudo_of_notMem (by decide))
  apply noSudo_append (noSudo_of_notMem (notMem_spaces (Re.text_spaces second).2))
  exact noSudo_append (noSudo_of_notMem (by decide)) whole

theorem removal_back (db : CharData) (rewritten : Rewritten [] lc out)
    (found : rmRe.search out = true) : rmRe.search lc = true := by
  obtain ⟨a, w, b, split, closed, text⟩ := commandStart_found found
  obtain ⟨free, start⟩ := removalRe_noSudo text
  have outside : Outside a (w ++ b) := outside_start closed (by rw [start]; decide)
  obtain ⟨a', b', rfl, same, back⟩ := text_back rewritten split text
    (show EdgeTests db _ from edgeTests_eol rfl) outside free
  exact search_commandStart (sameEnd_closed same closed) back

end Letters

section Shell

theorem outside_sudo {a b : Str} : Outside a ('s' :: b) := by
  intro u v parts some more _ inside
  cases v with
  | nil => exact more rfl
  | cons c v =>
      obtain ⟨tail, text⟩ := inside
      have letter : c = 's' := (List.cons.inj text).1
      subst letter
      exact sudoOption_tail parts some List.mem_cons_self

/-- A `sudo` with an option of two letters or more is not a replaced one. -/
theorem sudo_noSudo {blanks l b : Str} (spaces : ∀ c ∈ blanks, isSpace c = true)
    (lower : ∀ c ∈ l, isLower c = true) (long : 2 ≤ l.length) :
    NoSudo sudoWord (blanks ++ (['-'] ++ (l ++ b))) := by
  intro x y split some given
  cases x with
  | cons c x =>
      have rest : "udo".toList = x ++ y := (List.cons.inj split).2
      cases y with
      | nil => exact some rfl
      | cons d y =>
          obtain ⟨tail, text⟩ := given
          have letter : 's' = d := (List.cons.inj text).1
          have inside : 's' ∈ "udo".toList := by
            rw [rest, letter]
            simp
          exact absurd inside (by decide)
  | nil =>
      rw [List.nil_append] at split
      subst split
      have option : " -n ".toList <+: blanks ++ (['-'] ++ (l ++ b)) :=
        (List.prefix_append_right_inj sudoWord).mp given
      obtain ⟨tail, text⟩ := option
      cases blanks with
      | nil =>
          have dash : ' ' = '-' := (List.cons.inj text).1
          exact absurd dash (by decide)
      | cons c blanks =>
          have rest : '-' :: ("n ".toList ++ tail) = blanks ++ (['-'] ++ (l ++ b)) :=
            (List.cons.inj text).2
          cases blanks with
          | cons d blanks =>
              have dash : '-' = d := (List.cons.inj rest).1
              have space := spaces d (by simp)
              rw [← dash] at space
              exact absurd space (by decide)
          | nil =>
              have cluster : 'n' :: ' ' :: tail = l ++ b := (List.cons.inj rest).2
              have blank : ' ' ∈ l := by
                have second := congrArg (·[1]?) cluster
                rw [List.getElem?_append_left (by omega)] at second
                exact List.mem_of_getElem? second.symm
              exact absurd (lower ' ' blank) (by decide)

theorem shell_plain : ∀ w ∈ ["su".toList, "bash".toList, "sh".toList],
    w.all isLower = true ∧ 2 ≤ w.length ∧
      w.getLast?.any (fun c => c.isAlphanum && decide (c.toNat < 128) && c != 'o') = true := by
  decide

theorem sudoShell_text {before w b : Str} (found : (sudoShellRe db).MatchesText before w b) :
    NoSudo w b ∧ ∃ rest, w ++ b = 's' :: rest := by
  obtain ⟨name, rest, rfl, first, rest⟩ := Re.text_seq found
  obtain ⟨blanks, rest, rfl, second, rest⟩ := Re.text_seq rest
  obtain ⟨dash, rest, rfl, third, rest⟩ := Re.text_seq rest
  obtain ⟨letters, rest, rfl, lowers, rest⟩ := Re.text_seq rest
  obtain ⟨shell, rest, rfl, fourth, edge⟩ := Re.text_seq rest
  obtain ⟨rfl, boundary⟩ := Re.text_test edge
  have called : name = sudoWord := Re.text_lit first
  have minus : dash = ['-'] := Re.text_lit third
  obtain ⟨lower, long, last⟩ := shell_plain shell (text_oneOfWords fourth)
  obtain ⟨c, ending, plain⟩ := (Option.any_eq_true _ _).mp last
  simp only [Bool.and_eq_true, decide_eq_true_eq, bne_iff_ne] at plain
  subst called minus
  rw [List.append_nil]
  refine ⟨?_, ⟨_, rfl⟩⟩
  have cluster : ∀ c ∈ letters ++ shell, isLower c = true := by
    intro c member
    rcases List.mem_append.mp member with inside | inside
    · exact text_lowers lowers c inside
    · exact List.all_eq_true.mp lower c inside
  have next : b.head?.any db.isWord = false := by
    have wordChar : (shell.reverse ++ (letters.reverse ++ (['-'].reverse ++ (blanks.reverse ++
        (sudoWord.reverse ++ before))))).head?.any db.isWord = true := by
      rw [List.head?_append, List.head?_reverse, ending]
      simp [CharData.isWord, db.isAlnum_ascii c plain.1.2, plain.1.1]
    rw [wordChar] at boundary
    simpa using boundary
  have option : NoSudo (letters ++ shell) b := by
    refine noSudo_word ?_ (next_other next) (.inl ?_)
    · exact fun member => absurd (cluster ' ' member) (by decide)
    · intro given
      obtain ⟨front, whole⟩ := given
      have ends := congrArg List.getLast? whole
      rw [List.getLast?_append, List.getLast?_append, ending] at ends
      have letter : 'o' = c := Option.some.inj ends
      exact plain.2 letter.symm
  apply noSudo_append
  · rw [List.append_assoc, List.append_assoc]
    exact sudo_noSudo (Re.text_spaces second).2 cluster (by rw [List.length_append]; omega)
  · apply noSudo_append (noSudo_of_notMem (notMem_spaces (Re.text_spaces second).2))
    exact noSudo_append (noSudo_of_notMem (by decide)) option

theorem sudoShell_back (rewritten : Rewritten [] lc out)
    (found : (sudoShellRe db).search out = true) : (sudoShellRe db).search lc = true := by
  obtain ⟨a, w, b, split, text⟩ := Re.search_text found
  obtain ⟨free, rest, start⟩ := sudoShell_text text
  obtain ⟨a', b', rfl, same, back⟩ := text_back rewritten split text (edgeTests_boundary rfl)
    (by rw [start]; exact outside_sudo) free
  exact Re.search_of_matches _ _ back

end Shell

theorem sudoRewrite_passes (nearby : db.LowerLocal) {script : Str}
    (passed : isDestructive db (db.lower script) = false) :
    isDestructive db (db.lower (sudoRewrite db script)) = false := by
  have rewritten := rewritten_lower nearby script
  rw [← Bool.not_eq_true] at passed ⊢
  intro found
  apply passed
  simp only [isDestructive, Bool.or_eq_true] at found ⊢
  rcases found with ((((wipe | dd) | power) | bomb) | removal) | shell
  · exact .inl (.inl (.inl (.inl (.inl (wipe_back rewritten wipe)))))
  · exact .inl (.inl (.inl (.inl (.inr (dd_back rewritten dd)))))
  · exact .inl (.inl (.inl (.inr (power_back db rewritten power))))
  · exact .inl (.inl (.inr (bomb_back rewritten bomb)))
  · exact .inl (.inr (removal_back db rewritten removal))
  · exact .inr (sudoShell_back rewritten shell)

end SmolNas.App
