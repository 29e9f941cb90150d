import SmolNas.Py.ConfigParser

/-! Values with a percent sign: what basic interpolation makes of them, and which of them it
leaves as they are. -/

namespace SmolNas.Py.ConfigParser

section Expansion

/-- A text with its percent signs replaced, where `value` gives the options it names. -/
inductive Expands (value : Str → Option Str) : Str → Str → Prop where
  | nil : Expands value [] []
  | doubled {rest result : Str} (later : Expands value rest result) :
      Expands value ('%' :: '%' :: rest) ('%' :: result)
  | named {rest key after v result : Str} (form : keyOf rest = some (key, after))
      (found : value key = some v) (later : Expands value after result) :
      Expands value ('%' :: '(' :: rest) (v ++ result)
  | plain {c : Char} {rest result : Str} (other : c ≠ '%') (later : Expands value rest result) :
      Expands value (c :: rest) (c :: result)

variable {value other : Str → Option Str} {fuel : Nat} {text result : Str}

theorem keyOf_split {rest key after : Str} (found : keyOf rest = some (key, after)) :
    rest = key ++ ')' :: 's' :: after := by
  unfold keyOf at found
  dsimp only at found
  split at found
  next form =>
    rcases List.isPrefixOf_iff_prefix.mp form.2 with ⟨tail, whole⟩
    have front : (rest.takeWhile (· != ')')).length ≤ rest.length :=
      (List.takeWhile_prefix _).length_le
    have lead : rest.take (rest.takeWhile (· != ')')).length = rest.takeWhile (· != ')') :=
      (List.prefix_iff_eq_take.mp (List.takeWhile_prefix _)).symm
    rw [← whole] at found
    cases found
    calc
      rest = rest.take (rest.takeWhile (· != ')')).length ++
          rest.drop (rest.takeWhile (· != ')')).length := (List.take_append_drop _ _).symm
      _ = rest.takeWhile (· != ')') ++ ')' :: 's' :: tail := by rw [lead, ← whole]; rfl
  next => cases found

theorem expands_of_loop (done : interpolateLoop value fuel text = some result) :
    Expands value text result := by
  induction fuel, text using interpolateLoop.induct generalizing result with
  | case1 text => cases done
  | case2 fuel =>
      cases done
      exact .nil
  | case3 fuel rest ih =>
      rw [interpolateLoop] at done
      rcases Option.map_eq_some_iff.mp done with ⟨tail, inner, rfl⟩
      exact .doubled (ih inner)
  | case4 fuel rest ih =>
      rw [interpolateLoop] at done
      rcases Option.bind_eq_some_iff.mp done with ⟨⟨key, after⟩, form, named⟩
      rcases Option.bind_eq_some_iff.mp named with ⟨v, found, later⟩
      rcases Option.map_eq_some_iff.mp later with ⟨tail, inner, rfl⟩
      exact .named form found (ih after inner)
  | case5 fuel tail noSign noName =>
      rw [interpolateLoop] at done
      · cases done
      · exact noSign
      · exact noName
  | case6 fuel c rest noSign noName other ih =>
      rw [interpolateLoop] at done
      · rcases Option.map_eq_some_iff.mp done with ⟨tail, inner, rfl⟩
        exact .plain other (ih inner)
      · exact noSign
      · exact noName
      · exact other

theorem loop_of_expands (expands : Expands value text result) (enough : text.length < fuel) :
    interpolateLoop value fuel text = some result := by
  induction expands generalizing fuel with
  | nil =>
      cases fuel with
      | zero => cases enough
      | succ fuel => rfl
  | doubled later ih =>
      cases fuel with
      | zero => cases enough
      | succ fuel =>
          rw [interpolateLoop, ih (by simp at enough; omega)]
          rfl
  | named form found later ih =>
      cases fuel with
      | zero => cases enough
      | succ fuel =>
          have shorter := congrArg List.length (keyOf_split form)
          simp only [List.length_append, List.length_cons] at shorter enough
          rw [interpolateLoop, form, Option.bind_some]
          dsimp only
          rw [found, Option.bind_some, ih (by omega)]
          rfl
  | plain other later ih =>
      cases fuel with
      | zero => cases enough
      | succ fuel =>
          rw [interpolateLoop, ih (by simpa using enough)]
          · rfl
          · intro _ same
            exact absurd same other
          · intro _ same
            exact absurd same other
          · exact other

theorem Expands.mono (less : ∀ key v, value key = some v → other key = some v)
    (expands : Expands value text result) : Expands other text result := by
  induction expands with
  | nil => exact .nil
  | doubled _ ih => exact .doubled ih
  | named form found _ ih => exact .named form (less _ _ found) ih
  | plain away _ ih => exact .plain away ih

theorem expands_plain (free : '%' ∉ text) : Expands value text result ↔ result = text := by
  induction text generalizing result with
  | nil =>
      constructor
      · intro expands
        cases expands
        rfl
      · intro same
        rw [same]
        exact .nil
  | cons c rest ih =>
      rw [List.mem_cons, not_or] at free
      constructor
      · intro expands
        cases expands with
        | doubled later => exact absurd rfl free.1
        | named form found later => exact absurd rfl free.1
        | plain other later => rw [(ih free.2).mp later]
      · intro same
        rw [same]
        exact .plain (Ne.symm free.1) ((ih free.2).mpr rfl)

/-- Where the named options have no percent signs, at most half of those of the text are left. -/
theorem Expands.count (clean : ∀ key v, value key = some v → '%' ∉ v)
    (expands : Expands value text result) : 2 * result.count '%' ≤ text.count '%' := by
  induction expands with
  | nil => exact Nat.le_refl 0
  | doubled later ih =>
      rw [List.count_cons_self, List.count_cons_self, List.count_cons_self]
      omega
  | @named rest key after v result form found later ih =>
      have none : v.count '%' = 0 := List.count_eq_zero.mpr (clean key v found)
      have tail : after.count '%' ≤ rest.count '%' := by
        rw [keyOf_split form]
        exact (List.sublist_append_of_sublist_right
          (((List.sublist_cons_self _ _).trans (List.sublist_cons_self _ _)))).count_le _
      rw [List.count_append, none, List.count_cons_self, List.count_cons_of_ne (by decide)]
      omega
  | plain other later ih => rw [List.count_cons_of_ne other, List.count_cons_of_ne other]; exact ih

end Expansion

section Depth

variable {db : CharData} {map : Str → Option Str} {depth : Nat} {text result : Str}

/-- What an option gives that a text names, with this many levels left. -/
def namedValue (db : CharData) (map : Str → Option Str) (depth : Nat) (key : Str) : Option Str :=
  (map (db.lower key)).bind fun v =>
    if v.contains '%' then interpolate db map depth v else some v

theorem interpolate_succ : interpolate db map (depth + 1) text = some result ↔
    Expands (namedValue db map depth) text result := by
  constructor
  · exact expands_of_loop
  · intro expands
    exact loop_of_expands expands (Nat.lt_succ_self _)

theorem interpolate_plain (free : '%' ∉ text) : interpolate db map (depth + 1) text = some text :=
  interpolate_succ.mpr ((expands_plain free).mpr rfl)

theorem interpolate_mono (done : interpolate db map depth text = some result) :
    interpolate db map (depth + 1) text = some result := by
  induction depth generalizing text result with
  | zero => cases done
  | succ depth ih =>
      apply interpolate_succ.mpr
      refine (interpolate_succ.mp done).mono ?_
      intro key v found
      rcases Option.bind_eq_some_iff.mp found with ⟨raw, own, inner⟩
      rw [namedValue, own, Option.bind_some]
      split at inner
      next sign =>
        rw [if_pos sign]
        exact ih inner
      next clean =>
        rw [if_neg clean]
        exact inner

theorem interpolate_le {more : Nat} (deeper : depth ≤ more)
    (done : interpolate db map depth text = some result) :
    interpolate db map more text = some result := by
  induction deeper with
  | refl => exact done
  | step _ ih => exact interpolate_mono ih

/-- Values with percent signs are not all left as they are: with the fewest levels that
suffice for one of them it names none of the others, and loses percent signs. -/
theorem interpolate_fixed
    (fixed : ∀ key v, map key = some v → '%' ∈ v → interpolate db map depth v = some v) :
    ∀ key v, map key = some v → '%' ∉ v := by
  have stuck (less : Nat) (bound : less ≤ depth) :
      ∀ key v, map key = some v → '%' ∈ v → interpolate db map less v = none := by
    induction less with
    | zero =>
        intro key v own sign
        rfl
    | succ less ih =>
        intro key v own sign
        rw [Option.eq_none_iff_forall_ne_some]
        intro result done
        have same : result = v := by
          have full := interpolate_le bound done
          rw [fixed key v own sign] at full
          exact (Option.some.inj full).symm
        rw [same] at done
        have clean : ∀ name w, namedValue db map less name = some w → '%' ∉ w := by
          intro name w found
          rcases Option.bind_eq_some_iff.mp found with ⟨raw, own, inner⟩
          split at inner
          next sign =>
            rw [ih (by omega) _ raw own (List.contains_iff_mem.mp sign)] at inner
            cases inner
          next free =>
            cases inner
            rwa [List.contains_iff_mem] at free
        have fewer := (interpolate_succ.mp done).count clean
        have some := List.count_pos_iff.mpr sign
        omega
  intro key v own sign
  have failed := stuck depth (Nat.le_refl depth) key v own sign
  rw [fixed key v own sign] at failed
  cases failed

end Depth

section Named

variable {db : CharData} {map map' : Str → Option Str} {fresh : List Str}

/-- The options that a text names, as far as `_interpolate_some` reads it. -/
def namedKeys : Nat → Str → List Str
  | 0, _ => []
  | _ + 1, [] => []
  | fuel + 1, '%' :: '%' :: rest => namedKeys fuel rest
  | fuel + 1, '%' :: '(' :: rest =>
      match keyOf rest with
      | none => []
      | some (key, rest) => key :: namedKeys fuel rest
  | _ + 1, '%' :: _ => []
  | fuel + 1, _ :: rest => namedKeys fuel rest

def refersTo (text : Str) : List Str := namedKeys (text.length + 1) text

theorem interpolateLoop_congr {value other : Str → Option Str} {fuel : Nat} {text : Str}
    (same : ∀ key ∈ namedKeys fuel text, other key = value key) :
    interpolateLoop other fuel text = interpolateLoop value fuel text := by
  induction fuel, text using interpolateLoop.induct with
  | case1 text => rfl
  | case2 fuel => rfl
  | case3 fuel rest ih =>
      rw [interpolateLoop, interpolateLoop, ih same]
  | case4 fuel rest ih =>
      rw [interpolateLoop, interpolateLoop]
      cases form : keyOf rest with
      | none => rfl
      | some found =>
          rcases found with ⟨key, after⟩
          rw [namedKeys, form] at same
          rw [Option.bind_some, Option.bind_some]
          dsimp only
          rw [same key List.mem_cons_self,
            ih after fun k member => same k (List.mem_cons_of_mem key member)]
  | case5 fuel tail noSign noName =>
      rw [interpolateLoop, interpolateLoop]
      · exact noSign
      · exact noName
      · exact noSign
      · exact noName
  | case6 fuel c rest noSign noName other' ih =>
      rw [namedKeys] at same
      · rw [interpolateLoop, interpolateLoop, ih same]
        all_goals assumption
      · exact noSign
      · exact noName
      · exact other'

theorem interpolate_congr (same : ∀ key, key ∉ fresh → map' key = map key)
    (apart : ∀ key, key ∉ fresh → ∀ value, map key = some value →
      ∀ named ∈ refersTo value, db.lower named ∉ fresh)
    {text : Str} (own : ∀ named ∈ refersTo text, db.lower named ∉ fresh) (depth : Nat) :
    interpolate db map' depth text = interpolate db map depth text := by
  induction depth generalizing text with
  | zero => rfl
  | succ depth ih =>
      apply interpolateLoop_congr
      intro key member
      have away := own key member
      rw [same _ away]
      cases found : map (db.lower key) with
      | none => rfl
      | some value =>
          rw [Option.bind_some, Option.bind_some, ih (apart _ away value found)]

end Named

end SmolNas.Py.ConfigParser
