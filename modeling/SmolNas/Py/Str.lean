import Mathlib.Data.Bool.AllAny
import Mathlib.Data.List.DropRight
import Mathlib.Data.List.Infix
import Mathlib.Data.List.TakeWhile

/-! Python `str` as a list of characters: blanks, trimming, affixes and case.

The character classes that depend on the Unicode version of the interpreter
(`str.isalnum`, the digits of `\d`, the case mapping of `str.lower`) are the
fields of a character database, together with the facts about ASCII and about
blanks that every version of it keeps. -/

namespace SmolNas.Py

abbrev Str := List Char

/-- `str.isspace` of one character, which is also the class `\s`. -/
def isSpace (c : Char) : Bool :=
  let n := c.toNat
  (9 ≤ n && n ≤ 13) || (28 ≤ n && n ≤ 32) || n == 0x85 || n == 0xA0 || n == 0x1680 ||
    (0x2000 ≤ n && n ≤ 0x200A) || n == 0x2028 || n == 0x2029 || n == 0x202F ||
    n == 0x205F || n == 0x3000

def lstrip (s : Str) : Str := s.dropWhile isSpace

def rstrip (s : Str) : Str := s.rdropWhile isSpace

def strip (s : Str) : Str := rstrip (lstrip s)

def startswith (s affix : Str) : Bool := affix.isPrefixOf s

def endswith (s affix : Str) : Bool := affix.isSuffixOf s

/-- The test `part in s`. -/
def contains (s part : Str) : Bool := decide (part <:+: s)

/-- `sep.join(parts)`. -/
def join (sep : Str) (parts : List Str) : Str := sep.intercalate parts

theorem join_append (sep first : Str) (front : List Str) (next : Str) (rest : List Str) :
    join sep ((first :: front) ++ next :: rest) =
      join sep (first :: front) ++ (sep ++ join sep (next :: rest)) := by
  unfold join
  induction front generalizing first with
  | nil => simp
  | cons second front ih =>
      have later := ih second
      rw [List.cons_append, List.cons_append, List.intercalate_cons_cons,
        List.intercalate_cons_cons, ← List.cons_append, later]
      simp only [List.append_assoc]

/-- The character database of the interpreter. `lowerAt` is the lower-case
mapping of one character between the reversed text before it and the text after
it: a capital sigma at the end of a word has its own lower case. -/
structure CharData where
  isAlnum : Char → Bool
  isDecimal : Char → Bool
  lowerAt : Str → Char → Str → Str
  isAlnum_ascii : ∀ c, c.toNat < 128 → isAlnum c = c.isAlphanum
  isDecimal_ascii : ∀ c, c.toNat < 128 → isDecimal c = c.isDigit
  isAlnum_space : ∀ c, isSpace c = true → isAlnum c = false
  isDecimal_space : ∀ c, isSpace c = true → isDecimal c = false
  lowerAt_ascii : ∀ before c after, c.toNat < 128 → lowerAt before c after = [c.toLower]
  lowerAt_space : ∀ before c after, isSpace c = true → lowerAt before c after = [c]

def AgreeToBlank (s t : Str) : Prop :=
  s = t ∨ ∃ x c d y z, isSpace c = true ∧ isSpace d = true ∧ s = x ++ c :: y ∧ t = x ++ d :: z

namespace CharData

/-- A word character in the sense of `\w` and `\b`. -/
def isWord (db : CharData) (c : Char) : Bool := db.isAlnum c || c == '_'

def lowerFrom (db : CharData) : Str → Str → Str
  | _, [] => []
  | before, c :: s => db.lowerAt before c s ++ lowerFrom db (c :: before) s

/-- `s.lower()`. -/
def lower (db : CharData) (s : Str) : Str := db.lowerFrom [] s

/-- The lower case of a character does not depend on what stands beyond a blank: only a
capital sigma looks around, and no further than to a character that is neither cased
nor ignored. -/
def LowerLocal (db : CharData) : Prop :=
  ∀ before before' c after after', AgreeToBlank before before' → AgreeToBlank after after' →
    db.lowerAt before c after = db.lowerAt before' c after'

def LowerStable (db : CharData) : Prop := ∀ s, db.lower (db.lower s) = db.lower s

end CharData

section Strip

theorem lstrip_append {a : Str} (some : lstrip a ≠ []) (b : Str) :
    lstrip (a ++ b) = lstrip a ++ b := by
  unfold lstrip at some ⊢
  rw [List.dropWhile_append, if_neg]
  simpa using some

theorem lstrip_head {s t : Str} {c : Char} (stripped : lstrip s = c :: t) : isSpace c = false := by
  have some : s.dropWhile isSpace ≠ [] := by
    rw [lstrip] at stripped
    simp [stripped]
  have first := List.head_dropWhile_not isSpace some
  rw [lstrip] at stripped
  simpa [stripped] using first

theorem strip_head? (s : Str) : (strip s).head? = (lstrip s).head? := by
  cases stripped : lstrip s with
  | nil => rw [strip, stripped]; rfl
  | cons c t =>
      have other := lstrip_head stripped
      obtain ⟨rest, whole⟩ : rstrip (c :: t) <+: c :: t := List.rdropWhile_prefix isSpace (c :: t)
      rw [strip, stripped]
      cases kept : rstrip (c :: t) with
      | nil =>
          have all := List.rdropWhile_eq_nil_iff.mp kept c (by simp)
          rw [other] at all
          cases all
      | cons d u =>
          rw [kept] at whole
          rw [(List.cons.inj whole).1]
          rfl

theorem strip_concat {c : Char} (space : isSpace c = true) (w : Str) :
    strip (w ++ [c]) = strip w := by
  by_cases blank : lstrip w = []
  · have all := List.dropWhile_eq_nil_iff.mp blank
    have both : lstrip (w ++ [c]) = [] := by
      apply List.dropWhile_eq_nil_iff.mpr
      intro d member
      rcases List.mem_append.mp member with inside | last
      · exact all d inside
      · rw [List.mem_singleton.mp last, space]
    rw [strip, strip, blank, both]
  · rw [strip, lstrip_append blank, rstrip, List.rdropWhile_concat_pos _ _ _ space]
    rfl

theorem rstrip_append {c : Char} (solid : isSpace c = false) (a b : Str) :
    rstrip (a ++ c :: b) = a ++ c :: rstrip b := by
  unfold rstrip
  induction b using List.reverseRecOn with
  | nil => exact List.rdropWhile_concat_neg _ _ _ (by simp [solid])
  | append_singleton b d ih =>
      rw [← List.cons_append, ← List.append_assoc, List.rdropWhile_concat, List.rdropWhile_concat]
      split
      · exact ih
      · rw [List.append_assoc, List.cons_append]

theorem strip_rstrip (s : Str) : strip (rstrip s) = strip s := by
  induction s using List.reverseRecOn with
  | nil => rfl
  | append_singleton s c ih =>
      rw [rstrip, List.rdropWhile_concat]
      split
      next space =>
        rw [strip_concat space]
        exact ih
      next => rfl

theorem mem_lstrip {c : Char} (solid : isSpace c = false) (s : Str) : c ∈ lstrip s ↔ c ∈ s := by
  constructor
  · intro member
    exact (List.dropWhile_sublist _).subset member
  · intro member
    rw [← List.takeWhile_append_dropWhile (p := isSpace) (l := s)] at member
    rcases List.mem_append.mp member with blank | rest
    · have space := List.mem_takeWhile_imp blank
      rw [solid] at space
      cases space
    · exact rest

theorem mem_strip {c : Char} (solid : isSpace c = false) (s : Str) : c ∈ strip s ↔ c ∈ s := by
  rw [strip, rstrip, List.rdropWhile, List.mem_reverse]
  exact (mem_lstrip solid _).trans (List.mem_reverse.trans (mem_lstrip solid s))

theorem strip_part (s : Str) : strip s <:+: s :=
  (List.rdropWhile_prefix isSpace (lstrip s)).isInfix.trans (List.dropWhile_suffix isSpace).isInfix

theorem strip_length (s : Str) : (strip s).length ≤ s.length := (strip_part s).length_le

end Strip

theorem isSpace_range (c : Char) (space : isSpace c = true) :
    (9 ≤ c.toNat ∧ c.toNat ≤ 13) ∨ (28 ≤ c.toNat ∧ c.toNat ≤ 32) ∨ 133 ≤ c.toNat := by
  simp only [isSpace, Bool.or_eq_true, Bool.and_eq_true, decide_eq_true_eq, beq_iff_eq] at space
  omega

theorem isAlphanum_range (c : Char) (alnum : c.isAlphanum = true) :
    (48 ≤ c.toNat ∧ c.toNat ≤ 57) ∨ (65 ≤ c.toNat ∧ c.toNat ≤ 90) ∨
      (97 ≤ c.toNat ∧ c.toNat ≤ 122) := by
  have ranges : (decide (c.val ≥ 'A'.val ∧ c.val ≤ 'Z'.val) || (c.val ≥ 'a'.val && c.val ≤ 'z'.val) ||
      (c.val ≥ '0'.val && c.val ≤ '9'.val)) = true := alnum
  simp only [Bool.or_eq_true, Bool.and_eq_true, decide_eq_true_eq, ge_iff_le,
    UInt32.le_iff_toNat_le] at ranges
  rcases ranges with (upper | lower) | digit
  · exact Or.inr (Or.inl upper)
  · exact Or.inr (Or.inr lower)
  · exact Or.inl digit

theorem toLower_eq_self (c : Char) (outside : ¬(65 ≤ c.toNat ∧ c.toNat ≤ 90)) :
    c.toLower = c := by
  unfold Char.toLower
  split
  · rename_i upper
    simp only [ge_iff_le, UInt32.le_iff_toNat_le] at upper
    exact absurd upper outside
  · rfl

namespace CharData

private theorem isAlphanum_space (c : Char) (space : isSpace c = true) :
    c.isAlphanum = false := by
  by_contra alnum
  have low := isSpace_range c space
  have high := isAlphanum_range c (by simpa using alnum)
  omega

/-- The database restricted to ASCII: every other character is uncased and no
word character. -/
def ascii : CharData where
  isAlnum := Char.isAlphanum
  isDecimal := Char.isDigit
  lowerAt _ c _ := [c.toLower]
  isAlnum_ascii _ _ := rfl
  isDecimal_ascii _ _ := rfl
  isAlnum_space := isAlphanum_space
  isDecimal_space c space := by
    have alnum := isAlphanum_space c space
    simp only [Char.isAlphanum, Bool.or_eq_false_iff] at alnum
    exact alnum.2
  lowerAt_ascii _ _ _ _ := rfl
  lowerAt_space _ c _ space := by
    have range := isSpace_range c space
    rw [toLower_eq_self c (by omega)]

theorem ascii_lowerLocal : ascii.LowerLocal := fun _ _ _ _ _ _ _ => rfl

theorem toLower_toLower (c : Char) : c.toLower.toLower = c.toLower := by
  apply toLower_eq_self
  unfold Char.toLower
  split
  next upper =>
    have small : c.val.toNat ≤ 90 := UInt32.le_iff_toNat_le.mp upper.2
    have large : 65 ≤ c.val.toNat := UInt32.le_iff_toNat_le.mp upper.1
    have moved : (c.val + ('a'.val - 'A'.val)).toNat = c.val.toNat + 32 := by
      have distance : ('a'.val - 'A'.val).toNat = 32 := by decide
      rw [UInt32.toNat_add, distance]
      exact Nat.mod_eq_of_lt (by omega)
    change ¬(65 ≤ (c.val + ('a'.val - 'A'.val)).toNat ∧ (c.val + ('a'.val - 'A'.val)).toNat ≤ 90)
    omega
  next other =>
    rintro ⟨large, small⟩
    exact other ⟨UInt32.le_iff_toNat_le.mpr large, UInt32.le_iff_toNat_le.mpr small⟩

theorem ascii_lowerStable : ascii.LowerStable := by
  have each (before s : Str) : ascii.lowerFrom before s = s.map Char.toLower := by
    induction s generalizing before with
    | nil => rfl
    | cons c s ih => exact congrArg (c.toLower :: ·) (ih _)
  intro s
  rw [lower, each, lower, each, List.map_map]
  apply List.map_congr_left
  intro c _
  exact toLower_toLower c

variable (db : CharData)

theorem isWord_space {c : Char} (space : isSpace c = true) : db.isWord c = false := by
  have other : c ≠ '_' := by
    intro equal
    subst equal
    exact absurd space (by decide)
  simp [isWord, db.isAlnum_space c space, other]

def Fixed (c : Char) : Prop := ∀ before after, db.lowerAt before c after = [c]

theorem fixed_of_space {c : Char} (space : isSpace c = true) : db.Fixed c :=
  fun before after => db.lowerAt_space before c after space

theorem fixed_of_ascii {c : Char} (small : c.toNat < 128)
    (outside : ¬(65 ≤ c.toNat ∧ c.toNat ≤ 90)) : db.Fixed c := by
  intro before after
  rw [db.lowerAt_ascii before c after small, toLower_eq_self c outside]

theorem lowerFrom_ascii (before x y : Str) (small : ∀ c ∈ x, c.toNat < 128) :
    db.lowerFrom before (x ++ y) =
      x.map Char.toLower ++ db.lowerFrom (x.reverse ++ before) y := by
  induction x generalizing before with
  | nil => rfl
  | cons c x ih =>
      have head := small c (by simp)
      have tail := ih (c :: before) (fun d member => small d (by simp [member]))
      simp only [List.cons_append, lowerFrom, db.lowerAt_ascii _ c _ head, tail]
      simp

theorem lowerFrom_fixed (before x y : Str) (fixed : ∀ c ∈ x, db.Fixed c) :
    db.lowerFrom before (x ++ y) = x ++ db.lowerFrom (x.reverse ++ before) y := by
  induction x generalizing before with
  | nil => rfl
  | cons c x ih =>
      have head := fixed c (by simp)
      have tail := ih (c :: before) (fun d member => fixed d (by simp [member]))
      simp only [List.cons_append, lowerFrom, head before (x ++ y), tail]
      simp

theorem lower_fixed (s : Str) (fixed : ∀ c ∈ s, db.Fixed c) : db.lower s = s := by
  have whole := db.lowerFrom_fixed [] s [] fixed
  simpa [lower, lowerFrom] using whole

theorem lower_small {s : Str} (small : s.all (fun c => decide (c.toNat < 128) &&
    !(decide (65 ≤ c.toNat) && decide (c.toNat ≤ 90))) = true) : db.lower s = s := by
  apply db.lower_fixed
  intro c member
  have range := List.all_eq_true.mp small c member
  simp only [Bool.and_eq_true, Bool.not_eq_true', Bool.and_eq_false_iff, decide_eq_true_eq,
    decide_eq_false_iff_not] at range
  exact db.fixed_of_ascii range.1 (by omega)

theorem lowerFrom_append (before a y : Str) :
    ∃ front, db.lowerFrom before (a ++ y) =
      front ++ db.lowerFrom (a.reverse ++ before) y := by
  induction a generalizing before with
  | nil => exact ⟨[], rfl⟩
  | cons c a ih =>
      obtain ⟨front, equality⟩ := ih (c :: before)
      refine ⟨db.lowerAt before c (a ++ y) ++ front, ?_⟩
      simp only [List.cons_append, lowerFrom, equality]
      simp

theorem lower_split (a : Str) (c : Char) (y : Str) (fixed : db.Fixed c) :
    ∃ front, db.lower (a ++ c :: y) = front ++ c :: db.lowerFrom (c :: a.reverse) y := by
  obtain ⟨front, equality⟩ := db.lowerFrom_append [] a (c :: y)
  refine ⟨front, ?_⟩
  rw [lower, equality]
  simp [lowerFrom, fixed _ _]

end CharData

end SmolNas.Py
