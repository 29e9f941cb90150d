import SmolNas.Lib.Script

/-! The characters of a string literal, as the grammar of ECMAScript has them, and what the
scanner makes of them. -/

namespace SmolNas.Lib.Script

section Grammar

def isHexDigit (c : Char) : Bool := (hexDigit c).isSome

def hexValue (value : Nat) (digits : List Char) : Nat :=
  digits.foldl (fun n c => n * 16 + (hexDigit c).getD 0) value

inductive EscapeSequence : List Char → Prop
  | single {c : Char} : c ≠ 'x' → c ≠ 'u' → EscapeSequence [c]
  | returnFeed : EscapeSequence ['\r', '\n']
  | hex {digits : List Char} : digits.length = 2 → (∀ c ∈ digits, isHexDigit c = true) →
      EscapeSequence ('x' :: digits)
  | unicode {digits : List Char} : digits.length = 4 → (∀ c ∈ digits, isHexDigit c = true) →
      EscapeSequence ('u' :: digits)
  | braced {digits : List Char} : digits ≠ [] → (∀ c ∈ digits, isHexDigit c = true) →
      hexValue 0 digits ≤ 0x10FFFF → EscapeSequence ('u' :: '\x7b' :: (digits ++ ['\x7d']))

/-- The text between the quotes of a literal, cut off after a character or a backslash. -/
inductive Characters (quote : Char) : List Char → Prop
  | nil : Characters quote []
  | backslash : Characters quote ['\\']
  | plain {c : Char} {rest : List Char} : c ≠ quote → c ≠ '\\' → c ≠ '\n' → c ≠ '\r' →
      Characters quote rest → Characters quote (c :: rest)
  | escape {sequence rest : List Char} : EscapeSequence sequence → Characters quote rest →
      Characters quote ('\\' :: (sequence ++ rest))

def quoteOf (double : Bool) : Char := if double then '"' else '\''

def Escape.isComplete : Escape → Bool
  | .done | .started | .afterReturn => true
  | _ => false

/-- The literal is open after so many tokens, with no escape that waits for digits. -/
def Scanner.isOpen (double : Bool) (count : Nat) (s : Scanner) : Bool :=
  s.tokens.length == count &&
    match s.mode with
    | .string kind escape => kind == double && escape.isComplete
    | _ => false

end Grammar

namespace Scanner

variable {s : Scanner} {double : Bool} {count : Nat}

section Closed

theorem not_open_failed (failed : s.mode = .failed) (text : List Char) :
    (s.run text).isOpen double count ≠ true := by
  rw [run_failed failed, isOpen, failed]
  simp

theorem not_open_longer (longer : count < s.tokens.length) (text : List Char) :
    (s.run text).isOpen double count ≠ true := by
  have kept := (s.run_tokens text).length_le
  have apart : ((s.run text).tokens.length == count) = false := by
    rw [beq_eq_false_iff_ne]
    omega
  rw [isOpen, apart]
  simp

theorem not_open_waiting {escape : Escape} (waits : escape.isComplete = false) :
    ((s.within (.string double escape)).run []).isOpen double count ≠ true := by
  simp [run, isOpen, within, waits]

end Closed

section Digits

theorem step_string (escape : Escape) (c : Char) :
    (s.within (.string double escape)).step c =
      (s.within (.string double escape)).readString double escape c := rfl

theorem step_hex {n : Nat} {c : Char} (digit : isHexDigit c = true) :
    (s.within (.string double (.hex n))).step c =
      s.within (.string double (if n = 0 then .done else .hex (n - 1))) := if_pos digit

theorem run_hex {n : Nat} {digits : List Char} (length : digits.length = n + 1)
    (hex : ∀ c ∈ digits, isHexDigit c = true) :
    (s.within (.string double (.hex n))).run digits = s.within (.string double .done) := by
  induction digits generalizing n with
  | nil => cases length
  | cons c digits ih =>
      rw [List.forall_mem_cons] at hex
      rw [List.length_cons] at length
      rw [run_cons, step_hex hex.1]
      cases n with
      | zero =>
          have empty : digits = [] := List.length_eq_zero_iff.mp (by omega)
          rw [empty]
          rfl
      | succ n => exact ih (by omega) hex.2

theorem open_hex {n : Nat} {text : List Char}
    (isOpen : ((s.within (.string double (.hex n))).run text).isOpen double count = true) :
    ∃ digits rest, text = digits ++ rest ∧ digits.length = n + 1 ∧
      (∀ c ∈ digits, isHexDigit c = true) ∧
      ((s.within (.string double .done)).run rest).isOpen double count = true := by
  induction text generalizing n with
  | nil => exact absurd isOpen (not_open_waiting rfl)
  | cons c text ih =>
      rw [run_cons] at isOpen
      cases digit : isHexDigit c with
      | false =>
          have failed : (s.within (.string double (.hex n))).step c = s.within .failed :=
            if_neg (Bool.eq_false_iff.mp digit)
          rw [failed] at isOpen
          exact absurd isOpen (not_open_failed rfl text)
      | true =>
          rw [step_hex digit] at isOpen
          cases n with
          | zero => exact ⟨[c], text, rfl, rfl, by simpa using digit, isOpen⟩
          | succ n =>
              obtain ⟨digits, rest, whole, length, hex, after⟩ := ih isOpen
              exact ⟨c :: digits, rest, by rw [whole]; rfl, by simp [length],
                List.forall_mem_cons.mpr ⟨digit, hex⟩, after⟩

theorem hexValue_cons (value : Nat) (c : Char) (digits : List Char) :
    hexValue value (c :: digits) = hexValue (value * 16 + (hexDigit c).getD 0) digits := rfl

theorem le_hexValue (value : Nat) (digits : List Char) : value ≤ hexValue value digits := by
  induction digits generalizing value with
  | nil => exact Nat.le_refl value
  | cons c digits ih =>
      calc value ≤ value * 16 + (hexDigit c).getD 0 := by omega
        _ ≤ hexValue value (c :: digits) := ih _

theorem step_braced {value : Option Nat} {c : Char} (digit : isHexDigit c = true)
    (bound : value.getD 0 * 16 + (hexDigit c).getD 0 ≤ 0x10FFFF) :
    (s.within (.string double (.braced value))).step c =
      s.within (.string double (.braced (some (value.getD 0 * 16 + (hexDigit c).getD 0)))) := by
  obtain ⟨n, digit⟩ := Option.isSome_iff_exists.mp digit
  rw [digit] at bound ⊢
  rw [step_string]
  simp only [readString, digit]
  exact if_pos bound

theorem run_braced {value : Nat} {digits : List Char} (hex : ∀ c ∈ digits, isHexDigit c = true)
    (bound : hexValue value digits ≤ 0x10FFFF) :
    (s.within (.string double (.braced (some value)))).run digits =
      s.within (.string double (.braced (some (hexValue value digits)))) := by
  induction digits generalizing value with
  | nil => rfl
  | cons c digits ih =>
      rw [List.forall_mem_cons] at hex
      rw [hexValue_cons] at bound ⊢
      have next : (some value).getD 0 * 16 + (hexDigit c).getD 0 ≤ 0x10FFFF := by
        rw [Option.getD_some]
        exact Nat.le_trans (le_hexValue _ digits) bound
      rw [run_cons, step_braced hex.1 next, Option.getD_some]
      exact ih hex.2 bound

theorem open_braced {value : Option Nat} {text : List Char}
    (isOpen : ((s.within (.string double (.braced value))).run text).isOpen double count = true)
    (bound : value.getD 0 ≤ 0x10FFFF) :
    ∃ digits rest, text = digits ++ '\x7d' :: rest ∧ (value = none → digits ≠ []) ∧
      (∀ c ∈ digits, isHexDigit c = true) ∧ hexValue (value.getD 0) digits ≤ 0x10FFFF ∧
      ((s.within (.string double .done)).run rest).isOpen double count = true := by
  induction text generalizing value with
  | nil => exact absurd isOpen (not_open_waiting rfl)
  | cons c text ih =>
      rw [run_cons] at isOpen
      cases digit : hexDigit c with
      | none =>
          simp only [step_string, readString, digit] at isOpen
          split at isOpen
          next closing =>
            obtain ⟨rfl, read⟩ := closing
            refine ⟨[], text, rfl, ?_, by simp, bound, isOpen⟩
            rintro rfl
            cases read
          · exact absurd isOpen (not_open_failed rfl text)
      | some n =>
          simp only [step_string, readString, digit] at isOpen
          split at isOpen
          next next =>
            obtain ⟨digits, rest, whole, -, hex, small, after⟩ := ih isOpen next
            have first : isHexDigit c = true := Option.isSome_iff_exists.mpr ⟨n, digit⟩
            refine ⟨c :: digits, rest, by rw [whole]; rfl, by simp,
              List.forall_mem_cons.mpr ⟨first, hex⟩, ?_, after⟩
            rw [hexValue_cons, digit]
            exact small
          · exact absurd isOpen (not_open_failed rfl text)

end Digits

section Sequences

theorem step_fresh {escape : Escape} {c : Char} (fresh : escape = .done ∨ escape = .afterReturn)
    (other : c ≠ '\n') :
    (s.within (.string double escape)).step c = (s.within (.string double .done)).step c := by
  rcases fresh with rfl | rfl
  · rfl
  · exact if_neg other

theorem step_backslash :
    (s.within (.string double .done)).step '\\' = s.within (.string double .started) := rfl

theorem step_single {c : Char} (x : c ≠ 'x') (u : c ≠ 'u') :
    (s.within (.string double .started)).step c =
      s.within (.string double (if c = '\r' then .afterReturn else .done)) := by
  rw [step_string]
  simp only [readString, if_neg x, if_neg u]
  split <;> rfl

theorem step_unicode {c : Char} (digit : isHexDigit c = true) :
    (s.within (.string double .unicode)).step c = s.within (.string double (.hex 2)) := by
  have other : c ≠ '\x7b' := by
    rintro rfl
    cases digit
  rw [step_string]
  simp only [readString, if_neg other]
  exact if_pos digit

theorem step_done (c : Char) :
    (s.within (.string double .done)).step c =
      if c = '\\' then s.within (.string double .started)
      else if c = quoteOf double then s.emit .string
      else if c = '\n' ∨ c = '\r' then s.within .failed
      else s.within (.string double .done) := rfl

theorem step_plain {c : Char} (quote : c ≠ quoteOf double) (backslash : c ≠ '\\')
    (feed : c ≠ '\n') (line : c ≠ '\r') :
    (s.within (.string double .done)).step c = s.within (.string double .done) := by
  rw [step_done, if_neg backslash, if_neg quote, if_neg (not_or.mpr ⟨feed, line⟩)]

theorem open_unicode {text : List Char}
    (isOpen : ((s.within (.string double .unicode)).run text).isOpen double count = true) :
    ∃ sequence rest, 'u' :: text = sequence ++ rest ∧ EscapeSequence sequence ∧
      ((s.within (.string double .done)).run rest).isOpen double count = true := by
  cases text with
  | nil => exact absurd isOpen (not_open_waiting rfl)
  | cons c text =>
      rw [run_cons] at isOpen
      by_cases brace : c = '\x7b'
      · subst brace
        obtain ⟨digits, rest, rfl, filled, hex, bound, after⟩ :=
          @open_braced s double count none text isOpen (Nat.zero_le _)
        exact ⟨'u' :: '\x7b' :: (digits ++ ['\x7d']), rest, by simp,
          .braced (filled rfl) hex bound, after⟩
      cases digit : isHexDigit c with
      | true =>
          rw [step_unicode digit] at isOpen
          obtain ⟨digits, rest, rfl, length, hex, after⟩ := open_hex isOpen
          exact ⟨'u' :: c :: digits, rest, rfl,
            .unicode (by simp [length]) (List.forall_mem_cons.mpr ⟨digit, hex⟩), after⟩
      | false =>
          have failed : (s.within (.string double .unicode)).step c = s.within .failed := by
            rw [step_string]
            simp only [readString, if_neg brace]
            exact if_neg (Bool.eq_false_iff.mp digit)
          rw [failed] at isOpen
          exact absurd isOpen (not_open_failed rfl text)

theorem run_sequence {sequence : List Char} (whole : EscapeSequence sequence) :
    ∃ escape : Escape, (escape = .done ∨ escape = .afterReturn) ∧
      (s.within (.string double .started)).run sequence = s.within (.string double escape) := by
  cases whole with
  | @single c x u =>
      refine ⟨if c = '\r' then .afterReturn else .done, ?_, step_single x u⟩
      split
      · exact .inr rfl
      · exact .inl rfl
  | returnFeed => exact ⟨.done, .inl rfl, rfl⟩
  | hex length digits => exact ⟨.done, .inl rfl, run_hex length digits⟩
  | @unicode text length digits =>
      cases text with
      | nil => cases length
      | cons c text =>
          rw [List.forall_mem_cons] at digits
          refine ⟨.done, .inl rfl, ?_⟩
          rw [run_cons]
          change ((s.within (.string double .unicode)).step c).run text = _
          rw [step_unicode digits.1]
          exact run_hex (by simpa using length) digits.2
  | @braced text filled digits bound =>
      cases text with
      | nil => exact absurd rfl filled
      | cons c text =>
          rw [List.forall_mem_cons] at digits
          rw [hexValue_cons] at bound
          have next : (none : Option Nat).getD 0 * 16 + (hexDigit c).getD 0 ≤ 0x10FFFF :=
            Nat.le_trans (le_hexValue _ text) bound
          refine ⟨.done, .inl rfl, ?_⟩
          calc (s.within (.string double .started)).run ('u' :: '\x7b' :: (c :: text ++ ['\x7d']))
              = (s.within (.string double (.braced none))).run (c :: (text ++ ['\x7d'])) := rfl
            _ = (s.within (.string double (.braced (some
                  ((none : Option Nat).getD 0 * 16 + (hexDigit c).getD 0))))).run
                  (text ++ ['\x7d']) := by
                rw [run_cons, step_braced digits.1 next]
            _ = (s.within (.string double (.braced (some (hexValue
                  (0 * 16 + (hexDigit c).getD 0) text))))).run ['\x7d'] := by
                rw [run_append, Option.getD_none, run_braced digits.2 bound]
            _ = s.within (.string double .done) := rfl

theorem open_sequence {c : Char} {text : List Char}
    (isOpen : ((s.within (.string double .started)).run (c :: text)).isOpen double count = true) :
    ∃ sequence rest, c :: text = sequence ++ rest ∧ EscapeSequence sequence ∧
      ((s.within (.string double .done)).run rest).isOpen double count = true := by
  rw [run_cons] at isOpen
  by_cases x : c = 'x'
  · subst x
    obtain ⟨digits, rest, rfl, length, hex, after⟩ := open_hex isOpen
    exact ⟨'x' :: digits, rest, rfl, .hex length hex, after⟩
  by_cases u : c = 'u'
  · subst u
    change ((s.within (.string double .unicode)).run text).isOpen double count = true at isOpen
    exact open_unicode isOpen
  rw [step_single x u] at isOpen
  by_cases line : c = '\r'
  · subst line
    change ((s.within (.string double .afterReturn)).run text).isOpen double count = true at isOpen
    cases text with
    | nil => exact ⟨['\r'], [], rfl, .single x u, isOpen⟩
    | cons d text =>
        by_cases feed : d = '\n'
        · subst feed
          exact ⟨['\r', '\n'], text, rfl, .returnFeed, isOpen⟩
        · rw [run_cons, step_fresh (.inr rfl) feed] at isOpen
          exact ⟨['\r'], d :: text, rfl, .single x u, isOpen⟩
  · rw [if_neg line] at isOpen
    exact ⟨[c], text, rfl, .single x u, isOpen⟩

end Sequences

section Characters

theorem open_of_characters {text : List Char} (characters : Characters (quoteOf double) text) :
    ∀ escape : Escape, escape = .done ∨ escape = .afterReturn →
      ((s.within (.string double escape)).run text).isOpen double s.tokens.length = true := by
  induction characters with
  | nil =>
      rintro escape (rfl | rfl)
      · simp [run, isOpen, within, Escape.isComplete]
      · simp [run, isOpen, within, Escape.isComplete]
  | backslash =>
      intro escape fresh
      rw [run_cons, step_fresh fresh (by decide), step_backslash]
      simp [run, isOpen, within, Escape.isComplete]
  | @plain c rest quote backslash feed line _ ih =>
      intro escape fresh
      rw [run_cons, step_fresh fresh feed, step_plain quote backslash feed line]
      exact ih .done (.inl rfl)
  | @escape sequence rest whole _ ih =>
      intro escape fresh
      obtain ⟨next, again, run⟩ := @run_sequence s double sequence whole
      rw [run_cons, step_fresh fresh (by decide), step_backslash, run_append, run]
      exact ih next again

theorem characters_of_open (text : List Char)
    (isOpen : ((s.within (.string double .done)).run text).isOpen double s.tokens.length = true) :
    Characters (quoteOf double) text := by
  induction size : text.length using Nat.strong_induction_on generalizing text with
  | _ n ih =>
      cases text with
      | nil => exact .nil
      | cons c text =>
          rw [List.length_cons] at size
          by_cases backslash : c = '\\'
          · subst backslash
            cases text with
            | nil => exact .backslash
            | cons d text =>
                rw [run_cons, step_backslash] at isOpen
                obtain ⟨sequence, rest, whole, escape, after⟩ := open_sequence isOpen
                have length := congrArg List.length whole
                rw [List.length_append] at length
                rw [whole]
                exact .escape escape (ih rest.length (by omega) rest after rfl)
          rw [run_cons] at isOpen
          by_cases quote : c = quoteOf double
          · rw [step_done, if_neg backslash, if_pos quote] at isOpen
            exact absurd isOpen (not_open_longer (by simp [emit]) text)
          by_cases line : c = '\n' ∨ c = '\r'
          · rw [step_done, if_neg backslash, if_neg quote, if_pos line] at isOpen
            exact absurd isOpen (not_open_failed rfl text)
          rw [not_or] at line
          rw [step_plain quote backslash line.1 line.2] at isOpen
          exact .plain quote backslash line.1 line.2 (ih text.length (by omega) text isOpen rfl)

/-- A text leaves a literal open exactly if it is one of the grammar. -/
theorem isOpen_iff (text : List Char) :
    ((s.within (.string double .done)).run text).isOpen double s.tokens.length = true ↔
      Characters (quoteOf double) text :=
  ⟨characters_of_open text, fun characters => open_of_characters characters .done (.inl rfl)⟩

end Characters

end Scanner

end SmolNas.Lib.Script
