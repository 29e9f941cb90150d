import SmolNas.App.UserList

/-! The accounts that `get_system_users` finds, against the lines of `/etc/passwd`. -/

namespace SmolNas.App

open Py Lib

section Lines

variable (db : CharData) (digits : DigitData db)

def uidField (line : Str) : Option (Str × Str) :=
  match (strip line).splitOn ':' with
  | user :: _ :: field :: _ => some (user, field)
  | _ => none

def lineAccount (line : Str) : Option SystemUser :=
  (uidField line).bind fun entry =>
    (int db digits entry.2).bind fun uid =>
      if 1000 ≤ uid ∧ uid < 65534 then some ⟨entry.1, uid⟩ else none

def accounts (lines : List Str) : List SystemUser := lines.filterMap (lineAccount db digits)

/-- The line has a third field that is no number. -/
def isOdd (line : Str) : Bool := (uidField line).any fun entry => (int db digits entry.2).isNone

def devUser : SystemUser := ⟨"dev".toList, 1000⟩

variable {db digits}

theorem uidField_none {line : Str} (few : uidField line = none) (lines : List Str) :
    scanUsers db digits (line :: lines) = scanUsers db digits lines := by
  rw [uidField] at few
  rw [scanUsers]
  generalize (strip line).splitOn ':' = parts at few ⊢
  rcases parts with _ | ⟨user, _ | ⟨secret, _ | ⟨field, rest⟩⟩⟩
  · rfl
  · rfl
  · rfl
  · cases few

theorem uidField_some {line user field : Str} (many : uidField line = some (user, field)) :
    ∃ secret rest, (strip line).splitOn ':' = user :: secret :: field :: rest := by
  unfold uidField at many
  split at many
  next name secret number rest parts =>
    rw [Option.some.injEq, Prod.mk.injEq] at many
    rw [parts, many.1, many.2]
    exact ⟨secret, rest, rfl⟩
  next => cases many

theorem scanUsers_cons {line : Str} (lines : List Str) (plain : isOdd db digits line = false) :
    scanUsers db digits (line :: lines) =
      ((lineAccount db digits line).toList ++ (scanUsers db digits lines).1,
        (scanUsers db digits lines).2) := by
  cases given : uidField line with
  | none =>
      rw [uidField_none given, lineAccount, given]
      rfl
  | some entry =>
      rcases entry with ⟨user, field⟩
      rcases uidField_some given with ⟨secret, rest, parts⟩
      rw [isOdd, given, Option.any_some] at plain
      cases number : int db digits field with
      | none =>
          rw [number] at plain
          cases plain
      | some uid =>
          rw [lineAccount, given, Option.bind_some, number, Option.bind_some, scanUsers, parts]
          dsimp only
          rw [number]
          by_cases range : 1000 ≤ uid ∧ uid < 65534
          · rw [if_pos range]
            dsimp only
            rw [if_pos range]
            rfl
          · rw [if_neg range]
            dsimp only
            rw [if_neg range]
            rfl

theorem scanUsers_odd {odd : Str} (after : List Str) (raises : isOdd db digits odd = true) :
    scanUsers db digits (odd :: after) = ([], true) ∧ lineAccount db digits odd = none := by
  rw [isOdd, Option.any_eq_true] at raises
  rcases raises with ⟨⟨user, field⟩, given, number⟩
  rw [Option.isNone_iff_eq_none] at number
  rcases uidField_some given with ⟨secret, rest, parts⟩
  constructor
  · rw [scanUsers, parts]
    dsimp only
    rw [number]
  · rw [lineAccount, given, Option.bind_some, number, Option.bind_none]

theorem scanUsers_append {before : List Str}
    (plain : ∀ line ∈ before, isOdd db digits line = false) (after : List Str) :
    scanUsers db digits (before ++ after) =
      (accounts db digits before ++ (scanUsers db digits after).1,
        (scanUsers db digits after).2) := by
  induction before with
  | nil => rfl
  | cons line before ih =>
      have first := plain line List.mem_cons_self
      have later := ih fun other member => plain other (List.mem_cons_of_mem _ member)
      have both : accounts db digits (line :: before) =
          (lineAccount db digits line).toList ++ accounts db digits before := by
        rw [accounts, List.filterMap_cons]
        cases lineAccount db digits line <;> rfl
      rw [List.cons_append, scanUsers_cons _ first, later, both, List.append_assoc]

theorem getSystemUsers_plain {text : Str}
    (plain : ∀ line ∈ readlines text, isOdd db digits line = false) :
    getSystemUsers db digits ⟨text, false⟩ = accounts db digits (readlines text) := by
  have scan := scanUsers_append plain []
  rw [List.append_nil] at scan
  simp [getSystemUsers, scan, scanUsers]

theorem getSystemUsers_odd {text odd : Str} {before after : List Str}
    (lines : readlines text = before ++ odd :: after)
    (plain : ∀ line ∈ before, isOdd db digits line = false)
    (raises : isOdd db digits odd = true) :
    getSystemUsers db digits ⟨text, false⟩ = accounts db digits before ++ [devUser] := by
  have scan := scanUsers_append plain (odd :: after)
  rw [(scanUsers_odd after raises).1] at scan
  simp [getSystemUsers, lines, scan, devUser]

end Lines

/-- The accounts of the file are listed unless a line has a third field that is no number and
the lines after the first of these hold anything but the account of the handler. -/
theorem lists_accounts_iff (db : CharData) (digits : DigitData db) (text : Str) :
    getSystemUsers db digits ⟨text, false⟩ = accounts db digits (readlines text) ↔
      (∀ line ∈ readlines text, isOdd db digits line = false) ∨
        ∃ before odd after, readlines text = before ++ odd :: after ∧
          (∀ line ∈ before, isOdd db digits line = false) ∧ isOdd db digits odd = true ∧
          accounts db digits after = [devUser] := by
  have split {before after : List Str} {odd : Str} (lines : readlines text = before ++ odd :: after)
      (plain : ∀ line ∈ before, isOdd db digits line = false)
      (raises : isOdd db digits odd = true) :
      getSystemUsers db digits ⟨text, false⟩ = accounts db digits (readlines text) ↔
        accounts db digits after = [devUser] := by
    have whole : accounts db digits (readlines text) =
        accounts db digits before ++ accounts db digits after := by
      rw [lines, accounts, List.filterMap_append, List.filterMap_cons,
        (scanUsers_odd after raises).2]
      rfl
    rw [getSystemUsers_odd lines plain raises, whole, List.append_cancel_left_eq]
    exact eq_comm
  cases found : (readlines text).find? (isOdd db digits) with
  | none =>
      have plain : ∀ line ∈ readlines text, isOdd db digits line = false := by
        intro line member
        exact Bool.eq_false_iff.mpr (List.find?_eq_none.mp found line member)
      exact iff_of_true (getSystemUsers_plain plain) (.inl plain)
  | some odd =>
      rcases List.find?_eq_some_iff_append.mp found with ⟨raises, before, after, lines, others⟩
      have plain : ∀ line ∈ before, isOdd db digits line = false := by
        intro line member
        simpa using others line member
      constructor
      · intro listed
        exact .inr ⟨before, odd, after, lines, plain, raises, (split lines plain raises).mp listed⟩
      · rintro (none | ⟨before', odd', after', lines', plain', raises', only⟩)
        · have both := none odd (by rw [lines]; simp)
          rw [raises] at both
          cases both
        · exact (split lines' plain' raises').mpr only

/-- The NIS line at the start of the file hides the account after it. -/
theorem nis_line_hides_account :
    ¬∀ (db : CharData) (digits : DigitData db) (text : Str),
      getSystemUsers db digits ⟨text, false⟩ = accounts db digits (readlines text) := by
  intro all
  have listed := all .ascii (asciiDigits .ascii)
    "+::::::\nbob:x:1001:1001::/home/bob:/bin/bash\n".toList
  revert listed
  decide +kernel

end SmolNas.App
