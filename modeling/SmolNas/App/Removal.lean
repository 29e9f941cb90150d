import SmolNas.App.DenyFilter

/-! Commands that remove the root directory, and the text of those that the pattern of
the deny filter matches. -/

namespace SmolNas.App

open Py Lib

section Removal

/-- `-r` or `-R`, alone or among other letters. -/
def isRecursiveFlag : Str → Bool
  | '-' :: letters => letters.all Char.isAlpha && letters.any fun c => c == 'r' || c == 'R'
  | _ => false

def isRootOperand (word : Str) : Bool := word == ['/'] || word == ['/', '*']

/-- The words that `rm` may read as flags. -/
def flagWords (arguments : List Shell.Marked) : List Shell.Marked :=
  arguments.takeWhile fun word => Shell.wordOf word != "--".toList

/-- An unquoted `rm` with a recursive flag and the root directory, or all of its entries,
among its operands. -/
def removesRoot {script : Str} (place : Shell.Place script) : Bool :=
  match place.words with
  | [] => false
  | word :: arguments =>
      Shell.text word == "rm".toList &&
        (flagWords arguments).any (fun flag => isRecursiveFlag (Shell.wordOf flag)) &&
        arguments.any fun operand => isRootOperand (Shell.wordOf operand)

/-- A slash, dashes and letters. -/
def isSlashWord : Str → Bool
  | '/' :: rest => (rest.dropWhile (· == '-')).all Char.isAlpha
  | _ => false

/-- The operand `/` comes after words of slash, dashes and letters only, and has a
blank or the end of the script after it. -/
def rootFollows (last : Bool) : List Shell.Marked → Bool
  | [] => false
  | field :: rest =>
      if field = [] then rootFollows last rest
      else if Shell.text field = ['/'] then !rest.isEmpty || last
      else isSlashWord (Shell.text field) && rootFollows last rest

/-- The form of `rm` that the filter knows: the recursive flag right after `rm`,
and then the root directory. -/
def isPlainRemoval (last : Bool) (command : Shell.Marked) : Bool :=
  match Shell.fields command with
  | [] => false
  | field :: arguments =>
      Shell.text field == "rm".toList &&
        match dropEmpty arguments with
        | [] => false
        | flag :: rest => isRecursiveFlag (Shell.text flag) && rootFollows last rest

/-- The place is one that the filter looks at, and its text up to the next `;`, `&` or `|` has
that form. -/
def showsRemoval {script : Str} (place : Shell.Place script) : Bool :=
  isOpen place &&
    isPlainRemoval (place.rest.dropWhile (!Shell.isSeparator ·)).isEmpty
      (place.rest.takeWhile (!Shell.isSeparator ·))

end Removal

section Tail

inductive RootTail : Str → Prop where
  | root : RootTail ['/']
  | blank {c : Char} {t : Str} (blank : Shell.isBlankChar c = true) (tail : RootTail t) :
      RootTail ([c] ++ t)
  | word {w : Str} {c : Char} {t : Str} (slash : isSlashWord w = true)
      (blank : Shell.isBlankChar c = true) (tail : RootTail t) : RootTail (w ++ ([c] ++ t))

theorem rootFollows_tail {last : Bool} {fields : List Shell.Marked} {v : Shell.Marked}
    (joined : Shell.Joined Shell.isBlank fields v) (follows : rootFollows last fields = true) :
    ∃ t r, Shell.text v = t ++ r ∧ RootTail t ∧
      ((r = [] ∧ last = true) ∨ ∃ c, r.head? = some c ∧ Shell.isBlankChar c = true) := by
  induction fields generalizing v with
  | nil => cases follows
  | cons field rest ih =>
      rw [rootFollows] at follows
      split at follows
      next empty =>
        rcases Shell.joined_cons joined with ⟨rfl, -⟩ | ⟨c, w, blank, rfl, later⟩
        · cases follows
        · obtain ⟨t, r, text, tail, ending⟩ := ih later follows
          refine ⟨[c.1] ++ t, r, ?_, .blank (marked_blank blank) tail, ending⟩
          rw [empty, List.nil_append, List.append_assoc, ← text]
          rfl
      next some =>
        split at follows
        next root =>
          rcases Shell.joined_cons joined with ⟨rfl, rfl⟩ | ⟨c, w, blank, rfl, later⟩
          · exact ⟨['/'], [], by rw [root]; rfl, .root, .inl ⟨rfl, by simpa using follows⟩⟩
          · refine ⟨['/'], c.1 :: Shell.text w, ?_, .root, .inr ⟨c.1, rfl, marked_blank blank⟩⟩
            rw [Shell.text_append, root]
            rfl
        next other =>
          rw [Bool.and_eq_true] at follows
          rcases Shell.joined_cons joined with ⟨rfl, -⟩ | ⟨c, w, blank, rfl, later⟩
          · cases follows.2
          · obtain ⟨t, r, text, tail, ending⟩ := ih later follows.2
            refine ⟨Shell.text field ++ ([c.1] ++ t), r, ?_,
              .word follows.1 (marked_blank blank) tail, ending⟩
            rw [Shell.text_append, List.append_assoc, List.append_assoc, ← text]
            rfl

theorem alpha_small {c : Char} (alpha : c.isAlpha = true) : 48 ≤ c.toNat ∧ c.toNat ≤ 122 := by
  have range := isAlphanum_range c (by rw [Char.isAlphanum, alpha, Bool.true_or])
  omega

theorem alpha_lower {c : Char} (alpha : c.isAlpha = true) : isLower c.toLower = true := by
  have table : ∀ n < 123, (Char.ofNat n).isAlpha = true → isLower (Char.ofNat n).toLower = true := by
    decide
  have range := alpha_small alpha
  have known := table c.toNat (by omega)
  rw [Char.ofNat_toNat] at known
  exact known alpha

theorem blankChar_small {c : Char} (blank : Shell.isBlankChar c = true) :
    c.toNat < 128 ∧ c.toLower = c := by
  simp only [Shell.isBlankChar, Bool.or_eq_true, beq_iff_eq] at blank
  rcases blank with (rfl | rfl) | rfl <;> decide

theorem slashWord_parts {w : Str} (slash : isSlashWord w = true) :
    ∃ dashes letters, w = '/' :: (dashes ++ letters) ∧ (∀ c ∈ dashes, c = '-') ∧
      ∀ c ∈ letters, c.isAlpha = true := by
  unfold isSlashWord at slash
  split at slash
  next rest =>
    refine ⟨rest.takeWhile (· == '-'), rest.dropWhile (· == '-'), ?_, ?_, ?_⟩
    · rw [List.takeWhile_append_dropWhile]
    · intro c member
      simpa using List.mem_takeWhile_imp member
    · exact List.all_eq_true.mp slash
  next => cases slash

theorem slashWord_chars {w : Str} (slash : isSlashWord w = true) :
    ∀ c ∈ w, c.toNat < 128 ∧ c ≠ ' ' := by
  obtain ⟨dashes, letters, rfl, allDashes, allLetters⟩ := slashWord_parts slash
  intro c member
  rcases List.mem_cons.mp member with rfl | member
  · decide
  rcases List.mem_append.mp member with dash | letter
  · rw [allDashes c dash]
    decide
  · have range := alpha_small (allLetters c letter)
    refine ⟨by omega, ?_⟩
    intro equal
    subst equal
    exact absurd range.1 (by decide)

theorem rootTail_small {t : Str} (tail : RootTail t) : ∀ c ∈ t, c.toNat < 128 := by
  induction tail with
  | root => exact List.all_iff_forall_prop.mp (by decide)
  | blank blank tail ih =>
      intro c member
      rcases List.mem_append.mp member with first | later
      · rw [List.mem_singleton.mp first]
        exact (blankChar_small blank).1
      · exact ih c later
  | word slash blank tail ih =>
      intro c member
      rcases List.mem_append.mp member with inside | member
      · exact (slashWord_chars slash c inside).1
      rcases List.mem_append.mp member with first | later
      · rw [List.mem_singleton.mp first]
        exact (blankChar_small blank).1
      · exact ih c later

theorem rootTail_head {t : Str} (tail : RootTail t) (b : Str) :
    ∃ c, (t ++ b).head? = some c ∧ c ≠ '-' := by
  cases tail with
  | root => exact ⟨'/', rfl, by decide⟩
  | @blank c t blank tail =>
      refine ⟨c, rfl, ?_⟩
      intro equal
      subst equal
      exact absurd blank (by decide)
  | word slash blank tail =>
      obtain ⟨dashes, letters, rfl, -, -⟩ := slashWord_parts slash
      exact ⟨'/', rfl, by decide⟩

theorem noSudo_blank {c : Char} (blank : Shell.isBlankChar c = true) (b : Str) :
    NoSudo [c] b := by
  apply noSudo_of_notMem
  intro member
  rw [← List.mem_singleton.mp member] at blank
  exact absurd blank (by decide)

theorem noSudo_beforeTail {w t b : Str} {c : Char} (word : ' ' ∉ w)
    (blank : Shell.isBlankChar c = true) (tail : RootTail t) : NoSudo w ([c] ++ t ++ b) := by
  apply noSudo_word word
  · intro d member first
    cases first
    have table : ∀ d ∈ ['u', 'd', 'o'], Shell.isBlankChar d = false :=
      List.all_iff_forall_prop.mp (by decide)
    rw [table c member] at blank
    cases blank
  · right
    intro given
    rcases given with ⟨rest, text⟩
    obtain ⟨d, first, other⟩ := rootTail_head tail b
    rw [List.append_assoc] at text
    have same : '-' :: rest = t ++ b := (List.cons.inj text).2
    rw [← same] at first
    cases first
    exact other rfl

theorem rootTail_noSudo {t b : Str} (tail : RootTail t) : NoSudo t b := by
  induction tail with
  | root => exact noSudo_of_notMem (by decide)
  | blank blank tail ih => exact noSudo_append (noSudo_blank blank _) ih
  | @word w c t slash blank tail ih =>
      have word : ' ' ∉ w := fun member => (slashWord_chars slash ' ' member).2 rfl
      exact noSudo_append (noSudo_beforeTail word blank tail)
        (noSudo_append (noSudo_blank blank _) ih)

end Tail

section Match

def slashWordRe : Re :=
  .seq (.lit ['/']) (.seq (.star (.one (· == '-'))) (.seq (.star (.one isLower)) (.plus .space)))

theorem matches_slashWord {w blanks : Str} (before b : Str) (slash : isSlashWord w = true)
    (spaces : ∀ c ∈ blanks, isSpace c = true) (some : blanks ≠ []) :
    ∃ before', slashWordRe.Matches before (w.map Char.toLower ++ (blanks ++ b)) before' b := by
  obtain ⟨dashes, letters, rfl, allDashes, allLetters⟩ := slashWord_parts slash
  have dash : ∀ c ∈ dashes.map Char.toLower, (c == '-') = true := by
    intro c member
    obtain ⟨d, source, rfl⟩ := List.mem_map.mp member
    rw [allDashes d source]
    decide
  have letter : ∀ c ∈ letters.map Char.toLower, isLower c = true := by
    intro c member
    obtain ⟨d, source, rfl⟩ := List.mem_map.mp member
    exact alpha_lower (allLetters d source)
  have text : ('/' :: (dashes ++ letters)).map Char.toLower ++ (blanks ++ b) =
      ['/'] ++ (dashes.map Char.toLower ++ (letters.map Char.toLower ++ (blanks ++ b))) := by
    simp
  rw [text]
  exact ⟨_, Re.matches_seq (Re.matches_lit ['/']) (Re.matches_seq (Re.matches_star_one _ dash)
    (Re.matches_seq (Re.matches_star_one _ letter) (Re.matches_plus_one blanks spaces some)))⟩

theorem rootTail_matches {t : Str} (tail : RootTail t) :
    ∃ blanks t', t.map Char.toLower = blanks ++ t' ∧ (∀ c ∈ blanks, isSpace c = true) ∧
      ∀ before b, ∃ before', (Re.star slashWordRe).Matches before (t' ++ b) before' ('/' :: b) := by
  induction tail with
  | root => exact ⟨[], ['/'], rfl, by simp, fun before b => ⟨before, Re.matches_star_nil⟩⟩
  | @blank c t blank tail ih =>
      obtain ⟨blanks, t', text, spaces, found⟩ := ih
      refine ⟨c :: blanks, t', ?_, ?_, found⟩
      · rw [List.map_append, text]
        simp [(blankChar_small blank).2]
      · intro d member
        rcases List.mem_cons.mp member with rfl | later
        · exact blankChar_space blank
        · exact spaces d later
  | @word w c t slash blank tail ih =>
      obtain ⟨blanks, t', text, spaces, found⟩ := ih
      refine ⟨[], w.map Char.toLower ++ ((c :: blanks) ++ t'), ?_, by simp, ?_⟩
      · rw [List.map_append, List.map_append, text]
        simp [(blankChar_small blank).2]
      · intro before b
        have all : ∀ d ∈ c :: blanks, isSpace d = true := by
          intro d member
          rcases List.mem_cons.mp member with rfl | later
          · exact blankChar_space blank
          · exact spaces d later
        obtain ⟨middle, first⟩ := matches_slashWord before (t' ++ b) slash all (by simp)
        obtain ⟨before', rest⟩ := found middle b
        refine ⟨before', ?_⟩
        have whole := Re.matches_star_cons first (by simp; omega) rest
        simpa using whole

theorem flag_lower {flag : Str} (recursive : isRecursiveFlag flag = true) :
    ∃ x y, flag.map Char.toLower = '-' :: (x ++ 'r' :: y) ∧ (∀ c ∈ x, isLower c = true) ∧
      (∀ c ∈ y, isLower c = true) := by
  unfold isRecursiveFlag at recursive
  split at recursive
  next letters =>
    rw [Bool.and_eq_true] at recursive
    obtain ⟨c, member, letter⟩ := List.any_eq_true.mp recursive.2
    obtain ⟨x, y, rfl⟩ := List.append_of_mem member
    have alpha := List.all_eq_true.mp recursive.1
    have lower : ∀ d ∈ (x ++ c :: y).map Char.toLower, isLower d = true := by
      intro d inside
      obtain ⟨e, source, rfl⟩ := List.mem_map.mp inside
      exact alpha_lower (alpha e source)
    have small : c.toLower = 'r' := by
      rw [Bool.or_eq_true, beq_iff_eq, beq_iff_eq] at letter
      rcases letter with rfl | rfl <;> decide
    refine ⟨x.map Char.toLower, y.map Char.toLower, ?_, ?_, ?_⟩
    · simp [small]
    · exact fun d inside => lower d (by simp_all)
    · exact fun d inside => lower d (by simp_all)
  next => cases recursive

theorem rootRe_matches {t b before : Str}
    (found : ∃ before', (Re.star slashWordRe).Matches before (t ++ b) before' ('/' :: b))
    (ending : ∀ e, b.head? = some e → isSpace e = true) :
    ∃ before' s, rootRe.Matches before (t ++ b) before' s := by
  obtain ⟨middle, words⟩ := found
  have slash : (Re.star (.one (· == '/'))).Matches middle (['/'] ++ b) (['/'].reverse ++ middle) b :=
    Re.matches_star_one ['/'] (by simp)
  cases b with
  | nil =>
      have final : (Re.alt .space .eol).Matches (['/'].reverse ++ middle) [] _ _ :=
        Re.matches_right (Re.matches_test rfl)
      exact ⟨_, _, Re.matches_seq words (Re.matches_seq slash final)⟩
  | cons e b =>
      have final : (Re.alt .space .eol).Matches (['/'].reverse ++ middle) (e :: b) _ _ :=
        Re.matches_left (Re.matches_one (ending e rfl))
      exact ⟨_, _, Re.matches_seq words (Re.matches_seq slash final)⟩

theorem removal_matches {blanks flag t b : Str} {c d : Char}
    (blank : Shell.isBlankChar c = true) (spaces : ∀ e ∈ blanks, Shell.isBlankChar e = true)
    (recursive : isRecursiveFlag flag = true) (blank' : Shell.isBlankChar d = true)
    (tail : RootTail t) (ending : ∀ e, b.head? = some e → isSpace e = true) (before : Str) :
    ∃ before' s, removalRe.Matches before
      (("rm".toList ++ (c :: blanks ++ (flag ++ ([d] ++ t)))).map Char.toLower ++ b) before' s := by
  obtain ⟨x, y, flagText, lowerX, lowerY⟩ := flag_lower recursive
  obtain ⟨more, t', tailText, moreSpaces, found⟩ := rootTail_matches tail
  have allBlank : ∀ e ∈ c :: blanks, Shell.isBlankChar e = true :=
    List.forall_mem_cons.mpr ⟨blank, spaces⟩
  have kept : (c :: blanks).map Char.toLower = c :: blanks :=
    (List.map_congr_left fun e member => (blankChar_small (allBlank e member)).2).trans
      (List.map_id' _)
  have text : ("rm".toList ++ (c :: blanks ++ (flag ++ ([d] ++ t)))).map Char.toLower ++ b =
      "rm".toList ++ ((c :: blanks) ++
        (['-'] ++ (x ++ (['r'] ++ (y ++ ((d :: more) ++ (t' ++ b))))))) := by
    rw [List.map_append, List.map_append, List.map_append, List.map_append, kept, flagText,
      tailText]
    simp [(blankChar_small blank').2]
  have gap : ∀ e ∈ d :: more, isSpace e = true :=
    List.forall_mem_cons.mpr ⟨blankChar_space blank', moreSpaces⟩
  obtain ⟨before', s, rest⟩ := rootRe_matches (found ((d :: more).reverse ++ (y.reverse ++
    (['r'].reverse ++ (x.reverse ++ (['-'].reverse ++ ((c :: blanks).reverse ++
      ("rm".toList.reverse ++ before))))))) b) ending
  rw [text]
  exact ⟨before', s, Re.matches_seq (Re.matches_lit _) (Re.matches_seq
    (Re.matches_plus_one _ (fun e member => blankChar_space (allBlank e member)) (by simp))
    (Re.matches_seq (Re.matches_lit _) (Re.matches_seq (Re.matches_star_one _ lowerX)
      (Re.matches_seq (Re.matches_lit _) (Re.matches_seq (Re.matches_star_one _ lowerY)
        (Re.matches_seq (Re.matches_right Re.matches_eps)
          (Re.matches_seq (Re.matches_plus_one _ gap (by simp)) rest)))))))⟩

end Match

end SmolNas.App
