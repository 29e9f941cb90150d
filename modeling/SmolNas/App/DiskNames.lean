import SmolNas.App.DiskAlerts
import SmolNas.Py.Moves

/-! Which disk `get_disk_health` asks about: the device of a mounted partition without its
partition number. -/

namespace SmolNas.App

open Py

/-- `p?\d+$` -/
def partitionRe (db : CharData) : Re :=
  .seq (.opt (.one (· == 'p'))) (.seq (.plus (.one db.isDecimal)) .eol)

def wholeDisk (db : CharData) (device : Str) : Str := (partitionRe db).sub [] device

/-- The device of the loop over the partitions: the first one at `/srv/nas`, or else the last
one at `/`. -/
def mountedDevice : Option Str → List Partition → Option Str
  | device, [] => device
  | device, p :: partitions =>
      if p.mountpoint = "/srv/nas".toList then some p.device
      else if p.mountpoint = "/".toList then mountedDevice (some p.device) partitions
      else mountedDevice device partitions

/-- No list of partitions stands for an exception of `psutil`. -/
def rawDevice (db : CharData) (partitions : Option (List Partition)) : Str :=
  let device := (mountedDevice none (partitions.getD [])).getD []
  if device = [] then "/dev/sda".toList else wholeDisk db device

/-- A name of a disk, for which the kernel has names of partitions. -/
structure Disk where
  name : Str
  ends : ∃ c, name.getLast? = some c ∧ c.isAlphanum = true

namespace Disk

def endsInDigit (d : Disk) : Bool := d.name.getLast?.any Char.isDigit

def endsInP (d : Disk) : Bool := d.name.getLast? == some 'p'

def part (d : Disk) (n : Nat) : Str :=
  if d.endsInDigit then d.name ++ 'p' :: Nat.toDigits 10 n else d.name ++ Nat.toDigits 10 n

/-- The disk is found from its partition, and from its own name if it is mounted as a whole. -/
def FoundBack (db : CharData) (d : Disk) (n : Nat) : Prop :=
  wholeDisk db (d.part n) = d.name ∧ wholeDisk db d.name = d.name

end Disk

section Pattern

variable {db : CharData}

/-- What the pattern matches. -/
inductive Numbered (db : CharData) : Str → Prop
  | digits {w : Str} (some : w ≠ []) (all : ∀ c ∈ w, db.isDecimal c = true) : Numbered db w
  | marked {w : Str} (some : w ≠ []) (all : ∀ c ∈ w, db.isDecimal c = true) : Numbered db ('p' :: w)

theorem run_partitionRe {before s : Str} (closed : s.getLast? ≠ some '\n') {m : Str × Str}
    (found : m ∈ (partitionRe db).run before s) : m.2 = [] ∧ Numbered db s := by
  rcases Re.run_text found with ⟨v, text, -, matched⟩
  rcases Re.text_seq matched with ⟨mark, rest, whole, first, second⟩
  rcases Re.text_seq second with ⟨w, none, parts, number, ended⟩
  rcases Re.text_test ended with ⟨empty, last⟩
  rcases Re.text_plus number with ⟨some, all⟩
  have finished : m.2 = [] := by
    simp only [Bool.or_eq_true, beq_iff_eq] at last
    rcases last with done | feed
    · exact done
    · rw [text, feed, List.getLast?_concat] at closed
      exact absurd rfl closed
  refine ⟨finished, ?_⟩
  rw [text, finished, whole, parts, empty, List.append_nil, List.append_nil]
  rcases Re.text_opt first with one | unmarked
  · rcases Re.text_one one with ⟨c, single, same⟩
    rw [single, beq_iff_eq.mp same]
    exact .marked some all
  · rw [unmarked]
    exact .digits some all

theorem partitionRe_matches (before : Str) {s : Str} (numbered : Numbered db s) :
    (partitionRe db).run before s ≠ [] := by
  have ended (before : Str) : Re.eol.Matches before [] before [] := Re.matches_test rfl
  have number {before w : Str} (some : w ≠ []) (all : ∀ c ∈ w, db.isDecimal c = true) :
      (Re.seq (.plus (.one db.isDecimal)) .eol).Matches before w (w.reverse ++ before) [] := by
    have digits : (Re.plus (.one db.isDecimal)).Matches before (w ++ []) (w.reverse ++ before) [] :=
      Re.matches_plus_one w all some
    rw [List.append_nil] at digits
    exact Re.matches_seq digits (ended _)
  cases numbered with
  | digits some all =>
      exact List.ne_nil_of_mem (Re.matches_seq (Re.matches_right Re.matches_eps) (number some all))
  | marked some all =>
      exact List.ne_nil_of_mem
        (Re.matches_seq (Re.matches_left (Re.matches_one (beq_self_eq_true 'p'))) (number some all))

theorem Numbered.ne_nil {s : Str} (numbered : Numbered db s) : s ≠ [] := by
  cases numbered with
  | digits some _ => exact some
  | marked _ _ => exact List.cons_ne_nil _ _

/-- What is left of a device, when it is split before the longest number that ends it. -/
theorem wholeDisk_numbered {a b : Str} (closed : b.getLast? ≠ some '\n') (numbered : Numbered db b)
    (longest : ∀ x y, a = x ++ y → y ≠ [] → ¬Numbered db (y ++ b)) : wholeDisk db (a ++ b) = a := by
  rcases List.exists_cons_of_ne_nil (partitionRe_matches a.reverse numbered) with
    ⟨m, rest, first⟩
  have member : m ∈ (partitionRe db).run a.reverse b := by
    rw [first]
    exact List.mem_cons_self
  have finished := (run_partitionRe closed member).1
  have found : ((partitionRe db).run (a.reverse ++ []) b).head? = .some (m.1, []) := by
    rw [List.append_nil, first, List.head?_cons, ← finished]
  have none (x y : Str) (split : a = x ++ y) (filled : y ≠ []) :
      (partitionRe db).run (x.reverse ++ []) (y ++ b) = [] := by
    by_contra matched
    rcases List.exists_mem_of_ne_nil _ matched with ⟨k, inside⟩
    have still : (y ++ b).getLast? ≠ some '\n' := by
      rwa [List.getLast?_append_of_ne_nil y numbered.ne_nil]
    exact longest x y split filled (run_partitionRe still inside).2
  rw [wholeDisk, Re.sub, Re.subFrom_rest (Nat.le_refl _) none numbered.ne_nil found,
    List.append_nil]

theorem wholeDisk_unnumbered {s : Str} (closed : s.getLast? ≠ some '\n')
    (unnumbered : ∀ x y, s = x ++ y → ¬Numbered db y) : wholeDisk db s = s := by
  apply Re.subFrom_none
  intro x y split
  by_contra matched
  rcases List.exists_mem_of_ne_nil _ matched with ⟨k, inside⟩
  have still : y.getLast? ≠ some '\n' := by
    intro feed
    rw [split, List.getLast?_append, feed] at closed
    exact closed rfl
  exact unnumbered x y split (run_partitionRe still inside).2

/-- A number at the end does not stay. The induction looks for the longest one. -/
theorem wholeDisk_changes (x : Str) {y : Str} (closed : y.getLast? ≠ some '\n')
    (numbered : Numbered db y) : wholeDisk db (x ++ y) ≠ x ++ y := by
  induction size : x.length using Nat.strong_induction_on generalizing x y with
  | _ n ih =>
      by_cases longest : ∀ u v, x = u ++ v → v ≠ [] → ¬Numbered db (v ++ y)
      · rw [wholeDisk_numbered closed numbered longest]
        intro same
        exact numbered.ne_nil (List.append_right_eq_self.mp same.symm)
      · simp only [not_forall, not_not] at longest
        rcases longest with ⟨u, v, split, filled, longer⟩
        have still : (v ++ y).getLast? ≠ some '\n' := by
          rwa [List.getLast?_append_of_ne_nil v numbered.ne_nil]
        have shorter : u.length < n := by
          have positive := List.length_pos_of_ne_nil filled
          rw [← size, split, List.length_append]
          omega
        rw [split, List.append_assoc]
        exact ih u.length shorter u still longer rfl

end Pattern

section Names

variable {db : CharData}

theorem isDecimal_digits (db : CharData) (n : Nat) :
    ∀ c ∈ Nat.toDigits 10 n, db.isDecimal c = true := by
  intro c member
  have digit := Nat.isDigit_of_mem_toDigits (by decide) (by decide) member
  have alnum : c.isAlphanum = true := by simp [Char.isAlphanum, digit]
  have range := isAlphanum_range c alnum
  rw [db.isDecimal_ascii c (by omega), digit]

theorem isDecimal_p (db : CharData) : db.isDecimal 'p' = false := db.isDecimal_ascii 'p' (by decide)

theorem Numbered.last {s : Str} (numbered : Numbered db s) :
    ∃ c, s.getLast? = some c ∧ db.isDecimal c = true := by
  have ends {w : Str} (some : w ≠ []) (all : ∀ c ∈ w, db.isDecimal c = true) :
      ∃ c, w.getLast? = .some c ∧ db.isDecimal c = true :=
    ⟨w.getLast some, List.getLast?_eq_some_getLast some, all _ (List.getLast_mem some)⟩
  cases numbered with
  | digits some all => exact ends some all
  | marked some all =>
      rw [← List.singleton_append, List.getLast?_append_of_ne_nil _ some]
      exact ends some all

theorem Numbered.mark {x w : Str} {c : Char} (other : db.isDecimal c = false)
    (numbered : Numbered db (x ++ c :: w)) : x = [] ∧ c = 'p' := by
  have absent {v : Str} (all : ∀ d ∈ v, db.isDecimal d = true) : c ∉ v := by
    intro member
    have decimal := all c member
    rw [other] at decimal
    cases decimal
  generalize whole : x ++ c :: w = s at numbered
  cases numbered with
  | digits some all =>
      refine absurd ?_ (absent all)
      rw [← whole]
      exact List.mem_append_right _ List.mem_cons_self
  | marked some all =>
      cases x with
      | nil => exact ⟨rfl, (List.cons.inj whole).1⟩
      | cons d x =>
          refine absurd ?_ (absent all)
          rw [← (List.cons.inj whole).2]
          exact List.mem_append_right _ List.mem_cons_self

theorem digits_closed (n : Nat) (front : Str) :
    (front ++ Nat.toDigits 10 n).getLast? ≠ some '\n' := by
  rw [List.getLast?_append_of_ne_nil front Nat.toDigits_ne_nil]
  intro feed
  exact absurd (Nat.isDigit_of_mem_toDigits (by decide) (by decide) (List.mem_of_getLast? feed))
    (by decide)

theorem wholeDisk_marked (a : Str) (n : Nat) : wholeDisk db (a ++ 'p' :: Nat.toDigits 10 n) = a := by
  apply wholeDisk_numbered (digits_closed n ['p'])
    (.marked Nat.toDigits_ne_nil (isDecimal_digits db n))
  intro x y _ some numbered
  exact some (numbered.mark (isDecimal_p db)).1

theorem wholeDisk_digits {a : Str} {c : Char} (other : db.isDecimal c = false) (unmarked : c ≠ 'p')
    (n : Nat) : wholeDisk db (a ++ [c] ++ Nat.toDigits 10 n) = a ++ [c] := by
  apply wholeDisk_numbered (digits_closed n [])
    (.digits Nat.toDigits_ne_nil (isDecimal_digits db n))
  intro x y split some numbered
  rcases List.eq_nil_or_concat y with empty | ⟨front, last, whole⟩
  · exact some empty
  · rw [whole, List.concat_eq_append, ← List.append_assoc] at split
    have same := (List.append_inj' split rfl).2
    rw [whole, List.concat_eq_append, ← same, List.append_assoc] at numbered
    exact unmarked (numbered.mark other).2

end Names

namespace Disk

variable (db : CharData) (d : Disk)

theorem shape : ∃ front c, d.name = front ++ [c] ∧ c.isAlphanum = true ∧
    db.isDecimal c = d.endsInDigit := by
  rcases d.ends with ⟨c, last, alnum⟩
  rcases List.getLast?_eq_some_iff.mp last with ⟨front, whole⟩
  have range := isAlphanum_range c alnum
  refine ⟨front, c, whole, alnum, ?_⟩
  rw [db.isDecimal_ascii c (by omega), endsInDigit, last]
  rfl

theorem wholeDisk_part (n : Nat) : wholeDisk db (d.part n) = d.name ↔ d.endsInP = false := by
  rcases d.shape db with ⟨front, c, whole, alnum, digit⟩
  have marked : d.endsInP = (c == 'p') := by
    rw [endsInP, whole, List.getLast?_concat]
    rfl
  rw [marked, part]
  by_cases numbered : d.endsInDigit = true
  · rw [if_pos numbered, wholeDisk_marked, iff_true_intro rfl, true_iff, beq_eq_false_iff_ne]
    intro same
    rw [numbered, same, isDecimal_p] at digit
    cases digit
  · rw [if_neg numbered, whole]
    by_cases same : c = 'p'
    · rw [same, List.append_assoc, List.singleton_append, wholeDisk_marked]
      simp
    · rw [wholeDisk_digits (by rw [digit]; simpa using numbered) same]
      simp [same]

theorem wholeDisk_name : wholeDisk db d.name = d.name ↔ d.endsInDigit = false := by
  rcases d.shape db with ⟨front, c, whole, alnum, digit⟩
  have closed : c ≠ '\n' := by
    intro feed
    rw [feed] at alnum
    cases alnum
  have last (front : Str) : (front ++ [c]).getLast? ≠ some '\n' := by
    rw [List.getLast?_concat, ne_eq, Option.some.injEq]
    exact closed
  rw [whole]
  by_cases numbered : d.endsInDigit = true
  · have single : Numbered db ([] ++ [c]) := .digits (by simp) (by simp [digit, numbered])
    have changed := wholeDisk_changes front (last []) single
    rw [List.nil_append] at changed
    simp [changed, numbered]
  · have unnumbered (x y : Str) (split : front ++ [c] = x ++ y) : ¬Numbered db y := by
      intro number
      rcases number.last with ⟨e, ended, decimal⟩
      have same := congrArg List.getLast? split
      rw [List.getLast?_concat, List.getLast?_append, ended, Option.some_or,
        Option.some.injEq] at same
      rw [← same, digit] at decimal
      exact numbered decimal
    simp [wholeDisk_unnumbered (last front) unnumbered, numbered]

end Disk

/-- A disk is found from its partitions and from its own name exactly if the name ends in a
letter other than `p`. -/
theorem found_back_iff (db : CharData) (d : Disk) (n : Nat) :
    d.FoundBack db n ↔ d.endsInDigit = false ∧ d.endsInP = false := by
  rw [Disk.FoundBack, d.wholeDisk_part, d.wholeDisk_name]
  exact and_comm

/-- The sixteenth disk: its first partition is taken for one of `/dev/sd`. -/
theorem sdp_not_found : ¬∀ (db : CharData) (d : Disk) (n : Nat), 1 ≤ n → d.FoundBack db n := by
  intro all
  have back := (all .ascii ⟨"/dev/sdp".toList, 'p', by decide, by decide⟩ 1 (by decide)).1
  revert back
  decide +kernel

-- a card with a file system on the disk itself
example : wholeDisk .ascii "/dev/mmcblk0".toList = "/dev/mmcblk".toList := by decide +kernel

end SmolNas.App
