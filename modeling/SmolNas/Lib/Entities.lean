import Mathlib.Data.List.Basic
import Mathlib.Data.List.Infix

/-! Escaping with entities: some characters of a text are replaced by codes that all start
with one mark. -/

namespace SmolNas.Lib

variable {α : Type} [DecidableEq α]

def replaceEach (c : α) (code : List α) (s : List α) : List α :=
  s.flatMap fun d => if d = c then code else [d]

/-- The codes of the characters, in the order in which they are replaced. The mark is one of
the characters, the codes tell each other apart, and none of them has a character that is
replaced after it. -/
structure Entities (α : Type) [DecidableEq α] where
  mark : α
  codes : List (α × List α)
  opens : ∀ entry ∈ codes, entry.2.head? = some mark ∧ mark ∉ entry.2.tail
  replaced : mark ∈ codes.map Prod.fst
  apart : codes.Pairwise fun a b => a.1 ≠ b.1 ∧ ¬a.2 <+: b.2 ∧ ¬b.2 <+: a.2
  ordered : codes.Pairwise fun a b => b.1 ∉ a.2
  clean : ∀ a ∈ codes, ∀ b ∈ codes, b.1 ≠ mark → b.1 ∉ a.2

namespace Entities

section Replacing

/-- Every character replaced at once. -/
def escapeBy (codes : List (α × List α)) (s : List α) : List α :=
  s.flatMap fun c => (codes.lookup c).getD [c]

/-- The characters replaced one after the other. -/
def replaceBy (codes : List (α × List α)) (s : List α) : List α :=
  codes.foldl (fun s entry => replaceEach entry.1 entry.2 s) s

theorem escapeBy_other {codes : List (α × List α)} {s : List α}
    (other : ∀ entry ∈ codes, entry.1 ∉ s) : escapeBy codes s = s := by
  induction s with
  | nil => rfl
  | cons c s ih =>
      have none : codes.lookup c = none := by
        rw [List.lookup_eq_none_iff]
        intro entry member
        rw [bne_iff_ne]
        intro same
        exact other entry member (by simp [same])
      have rest := ih fun entry member inside => other entry member (List.mem_cons_of_mem _ inside)
      rw [escapeBy, List.flatMap_cons, none]
      exact congrArg (c :: ·) rest

/-- No replacement touches the codes put in before it, so one pass does the same. -/
theorem replaceBy_eq {codes : List (α × List α)}
    (ordered : codes.Pairwise fun a b => b.1 ∉ a.2) (s : List α) :
    replaceBy codes s = escapeBy codes s := by
  induction codes generalizing s with
  | nil => exact (escapeBy_other fun _ member => absurd member List.not_mem_nil).symm
  | cons entry codes ih =>
      rcases entry with ⟨c, code⟩
      rcases List.pairwise_cons.mp ordered with ⟨first, later⟩
      have kept : escapeBy codes code = code := escapeBy_other first
      calc
        replaceBy ((c, code) :: codes) s = replaceBy codes (replaceEach c code s) := rfl
        _ = escapeBy codes (replaceEach c code s) := ih later _
        _ = s.flatMap fun d => escapeBy codes (if d = c then code else [d]) :=
          List.flatMap_assoc
        _ = escapeBy ((c, code) :: codes) s := by
          rw [escapeBy]
          congr 1
          funext d
          by_cases same : d = c
          · rw [if_pos same, kept, same, List.lookup_cons_self, Option.getD_some]
          · rw [if_neg same, List.lookup_cons, beq_eq_false_iff_ne.mpr same]
            exact List.flatMap_singleton _ _

end Replacing

variable (table : Entities α)

def escape (s : List α) : List α := escapeBy table.codes s

/-- The text with every code read back. The number says how many characters of the code
that was just read still follow. -/
def decodeFrom : Nat → List α → List α
  | _, [] => []
  | skip + 1, _ :: s => decodeFrom skip s
  | 0, c :: s =>
      match table.codes.find? fun entry => entry.2.isPrefixOf (c :: s) with
      | some entry => entry.1 :: decodeFrom (entry.2.length - 1) s
      | none => c :: decodeFrom 0 s

def decode (s : List α) : List α := table.decodeFrom 0 s

theorem starts (entry : α × List α) (member : entry ∈ table.codes) :
    ∃ rest, entry.2 = table.mark :: rest ∧ table.mark ∉ rest := by
  rcases table.opens entry member with ⟨first, free⟩
  exact ⟨entry.2.tail, (List.cons_head?_tail (Option.mem_def.mpr first)).symm, free⟩

theorem escape_cons (c : α) (s : List α) :
    table.escape (c :: s) = (table.codes.lookup c).getD [c] ++ table.escape s := by
  rw [escape, escapeBy, List.flatMap_cons]
  rfl

theorem lookup_cases (c : α) :
    (∃ entry ∈ table.codes, entry.1 = c ∧ table.codes.lookup c = some entry.2) ∨
      c ≠ table.mark ∧ (∀ entry ∈ table.codes, entry.1 ≠ c) ∧ table.codes.lookup c = none := by
  cases found : table.codes.lookup c with
  | some code =>
      rcases List.lookup_eq_some_iff.mp found with ⟨front, back, whole, -⟩
      exact .inl ⟨(c, code), by rw [whole]; simp, rfl, rfl⟩
  | none =>
      have other : ∀ entry ∈ table.codes, entry.1 ≠ c := by
        intro entry member same
        have differs := List.lookup_eq_none_iff.mp found entry member
        rw [same, bne_self_eq_false] at differs
        cases differs
      rcases List.mem_map.mp table.replaced with ⟨entry, member, same⟩
      exact .inr ⟨fun mark => other entry member (same.trans mark.symm), other, rfl⟩

theorem decodeFrom_skip (code s : List α) :
    table.decodeFrom code.length (code ++ s) = table.decodeFrom 0 s := by
  induction code with
  | nil => rfl
  | cons c code ih => exact ih

theorem find_code {entry : α × List α} (member : entry ∈ table.codes) (s : List α) :
    (table.codes.find? fun other => other.2.isPrefixOf (entry.2 ++ s)) = some entry := by
  rcases List.append_of_mem member with ⟨front, back, whole⟩
  have apart := table.apart
  rw [whole] at apart ⊢
  rw [List.find?_eq_some_iff_append]
  refine ⟨List.isPrefixOf_iff_prefix.mpr (List.prefix_append _ _), front, back, rfl, ?_⟩
  intro other earlier
  have differs := (List.pairwise_append.mp apart).2.2 other earlier entry List.mem_cons_self
  rw [Bool.not_eq_true', ← Bool.not_eq_true, List.isPrefixOf_iff_prefix]
  intro starts
  rcases List.prefix_or_prefix_of_prefix starts (List.prefix_append entry.2 s) with less | more
  · exact differs.2.1 less
  · exact differs.2.2 more

theorem decode_plain {text : List α} (plain : table.mark ∉ text) (rest : List α) :
    table.decode (text ++ rest) = text ++ table.decode rest := by
  induction text with
  | nil => rfl
  | cons c text ih =>
      have other : c ≠ table.mark := fun same => plain (by simp [same])
      have missed : (table.codes.find? fun entry =>
          entry.2.isPrefixOf (c :: (text ++ rest))) = none := by
        rw [List.find?_eq_none]
        intro entry member starts
        rcases table.starts entry member with ⟨tail, text, -⟩
        rw [text] at starts
        exact other (List.cons_prefix_cons.mp (List.isPrefixOf_iff_prefix.mp starts)).1.symm
      rw [List.cons_append, decode, decodeFrom, missed]
      exact congrArg (c :: ·) (ih fun inside => plain (List.mem_cons_of_mem _ inside))

theorem decode_code {entry : α × List α} (member : entry ∈ table.codes) (rest : List α) :
    table.decode (entry.2 ++ rest) = entry.1 :: table.decode rest := by
  rcases table.starts entry member with ⟨tail, text, -⟩
  have found := table.find_code member rest
  rw [text, List.cons_append] at found ⊢
  rw [decode, decodeFrom, found]
  dsimp only
  rw [text, List.length_cons, Nat.add_sub_cancel, decodeFrom_skip]
  rfl

theorem decode_escape_append (s rest : List α) :
    table.decode (table.escape s ++ rest) = s ++ table.decode rest := by
  induction s with
  | nil => rfl
  | cons c s ih =>
      rw [escape_cons, List.append_assoc]
      rcases table.lookup_cases c with ⟨entry, member, rfl, code⟩ | ⟨plain, -, absent⟩
      · rw [code, Option.getD_some, table.decode_code member, ih]
        rfl
      · have single : table.mark ∉ [c] := fun same => plain (List.mem_singleton.mp same).symm
        rw [absent, Option.getD_none, table.decode_plain single, ih]
        rfl

theorem decode_escape (s : List α) : table.decode (table.escape s) = s := by
  have whole := table.decode_escape_append s []
  rw [List.append_nil] at whole
  rw [whole]
  exact List.append_nil s

theorem escape_injective : Function.Injective table.escape :=
  Function.LeftInverse.injective table.decode_escape

theorem escape_clean (s : List α) {entry : α × List α} (member : entry ∈ table.codes)
    (other : entry.1 ≠ table.mark) : entry.1 ∉ table.escape s := by
  intro inside
  rcases List.mem_flatMap.mp inside with ⟨c, -, within⟩
  rcases table.lookup_cases c with ⟨own, known, -, code⟩ | ⟨-, plain, absent⟩
  · rw [code, Option.getD_some] at within
    exact table.clean own known entry member other within
  · rw [absent, Option.getD_none, List.mem_singleton] at within
    exact plain entry member within

theorem mark_starts (s : List α) {front back : List α}
    (place : table.escape s = front ++ table.mark :: back) :
    ∃ entry ∈ table.codes, entry.2 <+: table.mark :: back := by
  induction s generalizing front with
  | nil => simp [escape, escapeBy] at place
  | cons c s ih =>
      rw [escape_cons] at place
      rcases List.append_eq_append_iff.mp place with
        ⟨later, whole, rest⟩ | ⟨inner, whole, rest⟩
      · exact ih rest
      · cases inner with
        | nil => exact @ih [] rest.symm
        | cons first inner =>
            rw [List.cons_append, List.cons.injEq] at rest
            rcases table.lookup_cases c with ⟨entry, member, -, code⟩ | ⟨plain, -, absent⟩
            · rcases table.starts entry member with ⟨tail, text, free⟩
              rw [code, Option.getD_some, text] at whole
              cases front with
              | nil =>
                  rw [List.nil_append] at whole
                  refine ⟨entry, member, ?_⟩
                  rw [text, whole, rest.1, rest.2]
                  exact List.prefix_append (first :: inner) _
              | cons d front =>
                  rw [List.cons_append, List.cons.injEq] at whole
                  exact absurd (by rw [whole.2, rest.1]; simp) free
            · rw [absent, Option.getD_none] at whole
              cases front with
              | nil =>
                  rw [List.nil_append, List.cons.injEq] at whole
                  exact absurd (whole.1.trans rest.1.symm) plain
              | cons d front => simp at whole

end Entities

end SmolNas.Lib
