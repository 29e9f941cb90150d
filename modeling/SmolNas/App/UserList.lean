import SmolNas.App.SudoStarted

/-! `get_system_users` reads the accounts that the users page offers for deletion from
`/etc/passwd`; `delete_user` takes its name from the form. -/

namespace SmolNas.App

open Py Lib

section Numbers

/-- The values of the decimal digits, and the digits that `int` accepts before `ValueError`. -/
structure DigitData (db : CharData) where
  value : Char → Nat
  value_ascii : ∀ c, c.isDigit = true → value c = c.toNat - 48
  limit : Option Nat

def unsigned (db : CharData) (digits : DigitData db) (s : Str) : Option Nat :=
  let groups := s.splitOn '_'
  let all := groups.flatten
  if groups.all (fun group => group != [] && group.all db.isDecimal) = false then none
  else if digits.limit.any (· < all.length) then none
  else some (all.foldl (fun n c => n * 10 + digits.value c) 0)

/-- The white space around a number. Unlike `strip`, `int` keeps U+001C to U+001F. -/
def isIntSpace (c : Char) : Bool := isSpace c && !('\x1c' ≤ c && c ≤ '\x1f')

/-- `int(s)`; no value stands for a `ValueError`. -/
def int (db : CharData) (digits : DigitData db) (s : Str) : Option Int :=
  match (s.dropWhile isIntSpace).rdropWhile isIntSpace with
  | '-' :: s => (unsigned db digits s).map fun n => -(n : Int)
  | '+' :: s => (unsigned db digits s).map Int.ofNat
  | s => (unsigned db digits s).map Int.ofNat

def asciiDigits (db : CharData) : DigitData db where
  value c := c.toNat - 48
  value_ascii _ _ := rfl
  limit := some 4300

end Numbers

structure SystemUser where
  username : Str
  uid : Int
  deriving DecidableEq, Repr

/-- What reading `/etc/passwd` gives: a text, and whether opening it or reading on raises. -/
structure PasswdFile where
  text : Str
  fails : Bool
  deriving DecidableEq, Repr

/-- The loop over the lines, and whether `int` raises in it. -/
def scanUsers (db : CharData) (digits : DigitData db) : List Str → List SystemUser × Bool
  | [] => ([], false)
  | line :: lines =>
      match (strip line).splitOn ':' with
      | user :: _ :: field :: _ =>
          match int db digits field with
          | none => ([], true)
          | some uid =>
              let (users, raised) := scanUsers db digits lines
              (if 1000 ≤ uid ∧ uid < 65534 then ⟨user, uid⟩ :: users else users, raised)
      | _ => scanUsers db digits lines

def getSystemUsers (db : CharData) (digits : DigitData db) (file : PasswdFile) : List SystemUser :=
  let (users, raised) := scanUsers db digits (readlines file.text)
  if raised || file.fails then users ++ [⟨"dev".toList, 1000⟩] else users

/-- The table of `users.html` has a form for the account. -/
def offersDeletion (env : Env) (users : List SystemUser) (username : Str) : Bool :=
  users.any fun user => user.username == username && !isProtectedAccount env user.username

def userdelArgs (username : Str) : List Str := finalCmd ("sudo".toList :: (userdel username).list)

/-- Whatever the started programs answer, `userdel` is started only for accounts that the
page offers. -/
def DeletesOnlyOffered (env : Env) (users : List SystemUser) (posted : Option Str) : Prop :=
  (started env (deleteUser env posted)).All fun call =>
    ∀ username, call.args = userdelArgs username → offersDeletion env users username = true

theorem scanUsers_range {db : CharData} {digits : DigitData db} (lines : List Str) :
    ∀ user ∈ (scanUsers db digits lines).1, 1000 ≤ user.uid ∧ user.uid < 65534 := by
  induction lines with
  | nil =>
      intro user member
      cases member
  | cons line lines ih =>
      intro user member
      rw [scanUsers] at member
      split at member
      next name secret field rest parts =>
        split at member
        next => cases member
        next uid read =>
          dsimp only at member
          split at member
          next range =>
            rcases List.mem_cons.mp member with rfl | later
            · exact range
            · exact ih user later
          next => exact ih user member
      next => exact ih user member

theorem getSystemUsers_range {db : CharData} {digits : DigitData db} (file : PasswdFile) :
    ∀ user ∈ getSystemUsers db digits file, 1000 ≤ user.uid ∧ user.uid < 65534 := by
  intro user member
  unfold getSystemUsers at member
  dsimp only at member
  split at member
  next =>
    rcases List.mem_append.mp member with inside | last
    · exact scanUsers_range _ user inside
    · rw [List.mem_singleton.mp last]
      decide
  next => exact scanUsers_range _ user member

section Started

variable {env : Env} {users : List SystemUser} {posted : Option Str}

theorem userdelArgs_inj {a b : Str} (same : userdelArgs a = userdelArgs b) : a = b := by
  have last := congrArg List.getLast? same
  exact Option.some.inj last

theorem smbpasswd_not_userdel (a b : Str) :
    finalCmd ("sudo".toList :: (smbpasswdDelete a).list) ≠ userdelArgs b := by
  intro same
  have program : "smbpasswd".toList = "userdel".toList :=
    Option.some.inj (congrArg (fun args => args[2]?) same)
  exact absurd program (by decide)

theorem deleteUser_accepted (given : posted.getD [] ≠ [])
    (free : isProtectedAccount env (posted.getD []) = false) :
    ∃ reply : Bool × Str → Reply, started env (deleteUser env posted) =
      (runSudoCommand env ("sudo".toList :: (smbpasswdDelete (posted.getD [])).list)).bind fun _ =>
        (runSudoCommand env ("sudo".toList :: (userdel (posted.getD [])).list)).bind fun answer =>
          .ret (reply answer) := by
  refine ⟨fun answer =>
    if answer.1 then
      ⟨["User '".toList ++ posted.getD [] ++ "' deleted successfully.".toList], .redirect .users⟩
    else
      ⟨["Error deleting user '".toList ++ posted.getD [] ++ "': ".toList ++ answer.2],
        .redirect .users⟩, ?_⟩
  unfold deleteUser
  dsimp only
  rw [if_neg given, if_neg (by rw [free]; exact Bool.false_ne_true)]
  change started env (Prog.bind (handSudo env _) fun _ => Prog.bind (handSudo env _) _) = _
  rw [started_bind, started_handSudo]
  congr 1
  funext first
  rw [started_bind, started_handSudo]
  congr 1
  funext answer
  rcases answer with ⟨success, msg⟩
  cases success <;> rfl

theorem deleteUser_refused (refused : posted.getD [] = [] ∨
    isProtectedAccount env (posted.getD []) = true) :
    ∃ reply, started env (deleteUser env posted) = .ret reply := by
  unfold deleteUser
  dsimp only
  by_cases empty : posted.getD [] = []
  · rw [if_pos empty]
    exact ⟨_, rfl⟩
  · rw [if_neg empty, if_pos (refused.resolve_left empty)]
    exact ⟨_, rfl⟩

end Started

/-- In production `userdel` is started for a name that the page does not offer, unless the
name is refused. -/
theorem deletes_only_offered_iff (env : Env) (db : CharData) (digits : DigitData db)
    (file : PasswdFile) (posted : Option Str) :
    DeletesOnlyOffered env (getSystemUsers db digits file) posted ↔
      env.production = false ∨ posted.getD [] = [] ∨
        isProtectedAccount env (posted.getD []) = true ∨
        ∃ user ∈ getSystemUsers db digits file, user.username = posted.getD [] := by
  unfold DeletesOnlyOffered
  by_cases refused : posted.getD [] = [] ∨ isProtectedAccount env (posted.getD []) = true
  · rcases deleteUser_refused refused with ⟨reply, view⟩
    rw [view]
    refine iff_of_true trivial ?_
    rcases refused with empty | guarded
    · exact .inr (.inl empty)
    · exact .inr (.inr (.inl guarded))
  · rw [not_or, Bool.not_eq_true] at refused
    rcases deleteUser_accepted refused.1 refused.2 with ⟨reply, view⟩
    have offered : offersDeletion env (getSystemUsers db digits file) (posted.getD []) = true ↔
        ∃ user ∈ getSystemUsers db digits file, user.username = posted.getD [] := by
      rw [offersDeletion, List.any_eq_true]
      refine exists_congr fun user => and_congr_right fun _ => ?_
      rw [Bool.and_eq_true, beq_iff_eq, and_iff_left_iff_imp]
      intro same
      rw [same, refused.2]
      rfl
    rw [view]
    simp only [refused, Bool.false_eq_true, false_or]
    rw [← offered]
    constructor
    · intro all
      cases production : env.production with
      | false => exact .inl rfl
      | true =>
          unfold runSudoCommand at all
          rw [production, if_neg (by decide), if_neg (by decide)] at all
          exact .inr ((all.2 (.completed 0 [] [])).1 _ rfl)
    · intro allowed
      rcases allowed with simulated | listed
      · unfold runSudoCommand
        rw [if_pos simulated, if_pos simulated]
        trivial
      · refine Prog.all_bind (runSudoCommand_all env _ ?_) fun _ =>
          Prog.all_bind (runSudoCommand_all env _ ?_) fun _ => trivial
        · intro username same
          exact absurd same (smbpasswd_not_userdel _ _)
        · intro username same
          rw [← userdelArgs_inj same]
          exact listed

/-- A system account of the distribution. -/
theorem daemon_deleted : ¬∀ (env : Env) (db : CharData) (digits : DigitData db) (file : PasswdFile)
    (posted : Option Str), DeletesOnlyOffered env (getSystemUsers db digits file) posted := by
  intro all
  have only := all ⟨true, "dev".toList, "secret".toList⟩ .ascii (asciiDigits .ascii)
    ⟨"root:x:0:0:root:/root:/bin/bash\ndaemon:x:1:1::/usr/sbin:/usr/sbin/nologin\n".toList, false⟩
    (some "daemon".toList)
  have offered := (only.2 (.completed 0 [] [])).1 "daemon".toList rfl
  revert offered
  decide +kernel

end SmolNas.App
