import SmolNas.Py.Str

/-! JSON strings as `json.dump` writes them, with everything but printable ASCII escaped,
and what reads them back. -/

namespace SmolNas.Py.Json

def hexDigit (d : Nat) : Char := if d < 10 then Char.ofNat (48 + d) else Char.ofNat (87 + d)

def hexValue (c : Char) : Nat := if c.toNat < 58 then c.toNat - 48 else c.toNat - 87

def hex4 (n : Nat) : Str :=
  [hexDigit (n / 4096 % 16), hexDigit (n / 256 % 16), hexDigit (n / 16 % 16), hexDigit (n % 16)]

def units (c : Char) : List Nat :=
  if c.toNat < 0x10000 then [c.toNat]
  else [0xd800 + (c.toNat - 0x10000) / 0x400, 0xdc00 + (c.toNat - 0x10000) % 0x400]

def ofUnits : List Nat → Str
  | [] => []
  | [n] => [Char.ofNat n]
  | n :: m :: ns =>
      if 0xd800 ≤ n ∧ n < 0xdc00 then
        Char.ofNat (0x10000 + (n - 0xd800) * 0x400 + (m - 0xdc00)) :: ofUnits ns
      else Char.ofNat n :: ofUnits (m :: ns)

def shortEscapes : List (Nat × Char) :=
  [(0x22, '"'), (0x5c, '\\'), (8, 'b'), (12, 'f'), (10, 'n'), (13, 'r'), (9, 't')]

def escapeUnit (n : Nat) : Str :=
  match shortEscapes.lookup n with
  | some c => ['\\', c]
  | none => if 32 ≤ n ∧ n ≤ 126 then [Char.ofNat n] else '\\' :: 'u' :: hex4 n

def unescapeUnit : Str → Option (Nat × Str)
  | [] => none
  | '\\' :: 'u' :: a :: b :: c :: d :: rest =>
      some (hexValue a * 4096 + hexValue b * 256 + hexValue c * 16 + hexValue d, rest)
  | '\\' :: c :: rest => (shortEscapes.find? (·.2 == c)).map fun found => (found.1, rest)
  | c :: rest => some (c.toNat, rest)

/-- The code units up to the closing quote, and what follows it. -/
def readUnits : Nat → Str → Option (List Nat × Str)
  | _, '"' :: rest => some ([], rest)
  | fuel + 1, s => do
      let (n, rest) ← unescapeUnit s
      let (ns, rest) ← readUnits fuel rest
      return (n :: ns, rest)
  | 0, _ => none

def quote (s : Str) : Str := '"' :: (s.flatMap units).flatMap escapeUnit ++ ['"']

def unquote : Str → Option (Str × Str)
  | '"' :: rest => (readUnits rest.length rest).map fun (ns, rest) => (ofUnits ns, rest)
  | _ => none

section RoundTrip

theorem hexValue_hexDigit : ∀ d < 16, hexValue (hexDigit d) = d := by decide

theorem toNat_ofNat {n : Nat} (small : n < 0xd800) : (Char.ofNat n).toNat = n := by
  have valid : n.isValidChar := .inl small
  rw [Char.ofNat, dif_pos valid]
  rfl

theorem unescape_hex {n : Nat} (unit : n < 0x10000) (rest : Str) :
    unescapeUnit ('\\' :: 'u' :: hex4 n ++ rest) = some (n, rest) := by
  have digits : n / 4096 % 16 * 4096 + n / 256 % 16 * 256 + n / 16 % 16 * 16 + n % 16 = n := by
    omega
  simp only [hex4, List.cons_append, List.nil_append, unescapeUnit,
    hexValue_hexDigit _ (Nat.mod_lt _ (by decide : 0 < 16)), digits]

theorem unescape_plain {c : Char} (plain : c ≠ '\\') (rest : Str) :
    unescapeUnit (c :: rest) = some (c.toNat, rest) := by
  unfold unescapeUnit
  split
  all_goals simp_all

theorem escapeUnit_cases (n : Nat) :
    (∃ c, (n, c) ∈ shortEscapes ∧ escapeUnit n = ['\\', c]) ∨
      (32 ≤ n ∧ n ≤ 126 ∧ n ≠ 0x22 ∧ n ≠ 0x5c ∧ escapeUnit n = [Char.ofNat n]) ∨
        escapeUnit n = '\\' :: 'u' :: hex4 n := by
  by_cases short : n ∈ shortEscapes.map Prod.fst
  · rcases List.mem_map.mp short with ⟨⟨m, c⟩, member, same⟩
    subst same
    have table : ∀ e ∈ shortEscapes, escapeUnit e.1 = ['\\', e.2] := by decide
    exact .inl ⟨c, member, table _ member⟩
  · have none : shortEscapes.lookup n = none := by
      rw [List.lookup_eq_none_iff]
      intro e member
      rw [bne_iff_ne]
      exact fun same => short (List.mem_map.mpr ⟨e, member, same.symm⟩)
    rw [escapeUnit, none]
    dsimp only
    split
    next printable =>
      have quotes : n ≠ 0x22 ∧ n ≠ 0x5c := by
        simp [shortEscapes] at short
        exact ⟨short.1, short.2.1⟩
      exact .inr (.inl ⟨printable.1, printable.2, quotes.1, quotes.2, rfl⟩)
    next => exact .inr (.inr rfl)

theorem unescape_escape {n : Nat} (unit : n < 0x10000) (rest : Str) :
    unescapeUnit (escapeUnit n ++ rest) = some (n, rest) := by
  rcases escapeUnit_cases n with ⟨c, short, same⟩ | ⟨low, high, _, slash, same⟩ | same
  · rw [same]
    simp only [shortEscapes, List.mem_cons, Prod.mk.injEq, List.not_mem_nil, or_false] at short
    rcases short with h | h | h | h | h | h | h <;> (rw [h.1, h.2]; rfl)
  · have code : (Char.ofNat n).toNat = n := toNat_ofNat (by omega)
    have plain : Char.ofNat n ≠ '\\' := by
      intro equal
      rw [equal] at code
      exact slash code.symm
    rw [same, List.singleton_append, unescape_plain plain, code]
  · rw [same]
    exact unescape_hex unit rest

theorem escape_head {n : Nat} (rest : Str) :
    ∃ c tail, escapeUnit n ++ rest = c :: tail ∧ c ≠ '"' := by
  rcases escapeUnit_cases n with ⟨c, _, same⟩ | ⟨low, high, quotes, _, same⟩ | same
  · exact ⟨'\\', c :: rest, by rw [same]; rfl, by decide⟩
  · have code : (Char.ofNat n).toNat = n := toNat_ofNat (by omega)
    refine ⟨Char.ofNat n, rest, by rw [same]; rfl, ?_⟩
    intro equal
    rw [equal] at code
    exact quotes code.symm
  · exact ⟨'\\', 'u' :: hex4 n ++ rest, by rw [same]; rfl, by decide⟩

theorem readUnits_next {c : Char} (other : c ≠ '"') {tail rest after : Str} {n : Nat}
    {ns : List Nat} {fuel : Nat} (first : unescapeUnit (c :: tail) = some (n, rest))
    (later : readUnits fuel rest = some (ns, after)) :
    readUnits (fuel + 1) (c :: tail) = some (n :: ns, after) := by
  rw [readUnits, first]
  · simp [later]
  · intro rest same
    exact other (List.cons.inj same).1

theorem read_escaped (ns : List Nat) (small : ∀ n ∈ ns, n < 0x10000) (rest : Str) (fuel : Nat)
    (enough : ns.length ≤ fuel) :
    readUnits fuel (ns.flatMap escapeUnit ++ '"' :: rest) = some (ns, rest) := by
  induction ns generalizing fuel with
  | nil => cases fuel <;> rfl
  | cons n ns ih =>
      cases fuel with
      | zero => cases enough
      | succ fuel =>
          have later := ih (fun m member => small m (by simp [member])) fuel
            (Nat.le_of_succ_le_succ enough)
          have first := unescape_escape (small n (by simp)) (ns.flatMap escapeUnit ++ '"' :: rest)
          rcases escape_head (n := n) (ns.flatMap escapeUnit ++ '"' :: rest) with
            ⟨c, tail, text, other⟩
          rw [List.flatMap_cons, List.append_assoc, text]
          rw [text] at first
          exact readUnits_next other first later

theorem toNat_range (c : Char) : c.toNat < 0xd800 ∨ (0xdfff < c.toNat ∧ c.toNat < 0x110000) :=
  c.valid

theorem units_small (c : Char) : ∀ n ∈ units c, n < 0x10000 := by
  have range := toNat_range c
  intro n member
  rw [units] at member
  split at member
  next low =>
    rw [List.mem_singleton] at member
    omega
  next high =>
    simp only [List.mem_cons, List.not_mem_nil, or_false] at member
    omega

theorem ofUnits_units (c : Char) (ns : List Nat) : ofUnits (units c ++ ns) = c :: ofUnits ns := by
  have same : Char.ofNat c.toNat = c := Char.ofNat_toNat c
  have range := toNat_range c
  rw [units]
  split
  next low =>
    cases ns with
    | nil => simp [ofUnits, same]
    | cons m ns =>
        have surrogate : ¬(0xd800 ≤ c.toNat ∧ c.toNat < 0xdc00) := by
          omega
        rw [List.singleton_append, ofUnits, if_neg surrogate, same]
  next high =>
    have code : 0x10000 + (0xd800 + (c.toNat - 0x10000) / 0x400 - 0xd800) * 0x400 +
        (0xdc00 + (c.toNat - 0x10000) % 0x400 - 0xdc00) = c.toNat := by
      omega
    have surrogate : 0xd800 ≤ 0xd800 + (c.toNat - 0x10000) / 0x400 ∧
        0xd800 + (c.toNat - 0x10000) / 0x400 < 0xdc00 := by
      omega
    rw [List.cons_append, List.cons_append, List.nil_append, ofUnits, if_pos surrogate, code, same]

theorem ofUnits_flatMap (s : Str) : ofUnits (s.flatMap units) = s := by
  induction s with
  | nil => rfl
  | cons c s ih => rw [List.flatMap_cons, ofUnits_units, ih]

theorem length_le_escaped (ns : List Nat) : ns.length ≤ (ns.flatMap escapeUnit).length := by
  induction ns with
  | nil => exact Nat.le_refl 0
  | cons n ns ih =>
      have some : 1 ≤ (escapeUnit n).length := by
        rcases escapeUnit_cases n with ⟨c, _, same⟩ | ⟨_, _, _, _, same⟩ | same <;>
          simp [same]
      rw [List.flatMap_cons, List.length_append, List.length_cons]
      omega

theorem unquote_quote (s rest : Str) : unquote (quote s ++ rest) = some (s, rest) := by
  have small : ∀ n ∈ s.flatMap units, n < 0x10000 := by
    intro n member
    rcases List.mem_flatMap.mp member with ⟨c, _, unit⟩
    exact units_small c n unit
  have enough : (s.flatMap units).length ≤
      ((s.flatMap units).flatMap escapeUnit ++ '"' :: rest).length := by
    have escaped := length_le_escaped (s.flatMap units)
    rw [List.length_append]
    omega
  have read := read_escaped (s.flatMap units) small rest _ enough
  have text : quote s ++ rest =
      '"' :: ((s.flatMap units).flatMap escapeUnit ++ '"' :: rest) := by
    simp [quote]
  rw [text, unquote, read, Option.map_some]
  simp [ofUnits_flatMap]

end RoundTrip

end SmolNas.Py.Json
