import Mathlib.Data.List.Basic

/-! Tables with a key, and their entries read off a list of keys. -/

namespace SmolNas.Lib

variable {K A : Type} [BEq K]

/-- Replaces the entries with the key of the new one, or appends it. -/
def upsert (key : A → K) (entry : A) (entries : List A) : List A :=
  if entries.any (key · == key entry) then
    entries.map fun e => if key e == key entry then entry else e
  else entries ++ [entry]

theorem upsert_map {key : A → K} {f : A → A} (same : ∀ e, key (f e) = key e) (entry : A)
    (entries : List A) :
    (upsert key entry entries).map f = upsert key (f entry) (entries.map f) := by
  have known : (entries.map f).any (key · == key (f entry)) =
      entries.any (key · == key entry) := by
    rw [List.any_map]
    simp only [Function.comp_def, same]
  rw [upsert, upsert, known]
  split
  · rw [List.map_map, List.map_map]
    apply List.map_congr_left
    intro e _
    rw [Function.comp_apply, Function.comp_apply, same, same]
    split <;> rfl
  · rw [List.map_append, List.map_singleton]

def Keyed (key : A → K) (find : K → Option A) : Prop :=
  ∀ k entry, find k = some entry → key entry = k

variable {key : A → K} {find find' : K → Option A} {k : K} {entry : A}

theorem filterMap_remove (keyed : Keyed key find) (k : K) (keys : List K) :
    (keys.filter (· != k)).filterMap find = (keys.filterMap find).filter (key · != k) := by
  induction keys with
  | nil => rfl
  | cons j keys ih =>
      rw [List.filter_cons, List.filterMap_cons]
      cases found : find j with
      | none =>
          split
          · rw [List.filterMap_cons, found]
            exact ih
          · exact ih
      | some e =>
          have own := keyed j e found
          dsimp only
          rw [List.filter_cons, own]
          split
          · rw [List.filterMap_cons, found]
            exact congrArg _ ih
          · exact ih

variable [LawfulBEq K]

theorem filterMap_replace (keyed : Keyed key find) (own : find' k = some entry)
    (others : ∀ j, j ≠ k → find' j = find j) {keys : List K}
    (known : k ∈ keys → (find k).isSome = true) :
    keys.filterMap find' =
      (keys.filterMap find).map fun e => if key e == k then entry else e := by
  induction keys with
  | nil => rfl
  | cons j keys ih =>
      have rest := ih fun member => known (List.mem_cons_of_mem j member)
      rw [List.filterMap_cons, List.filterMap_cons]
      by_cases same : j = k
      · subst same
        rcases Option.isSome_iff_exists.mp (known List.mem_cons_self) with ⟨old, found⟩
        rw [own, found]
        dsimp only
        rw [List.map_cons, if_pos (beq_iff_eq.mpr (keyed j old found)), rest]
      · rw [others j same]
        cases found : find j with
        | none => exact rest
        | some e =>
            dsimp only
            have away : ¬(key e == k) = true := by rwa [keyed j e found, beq_iff_eq]
            rw [List.map_cons, if_neg away, rest]

theorem filterMap_upsert (keyed : Keyed key find) (own : find' k = some entry)
    (ownKey : key entry = k) (others : ∀ j, j ≠ k → find' j = find j) {keys : List K}
    (known : k ∈ keys → (find k).isSome = true) :
    (if keys.contains k then keys else keys ++ [k]).filterMap find' =
      upsert key entry (keys.filterMap find) := by
  have replaced := filterMap_replace keyed own others known
  rw [upsert, ownKey]
  by_cases present : k ∈ keys
  · rcases Option.isSome_iff_exists.mp (known present) with ⟨old, found⟩
    have listed : (keys.filterMap find).any (key · == k) = true := by
      rw [List.any_eq_true]
      exact ⟨old, List.mem_filterMap.mpr ⟨k, present, found⟩,
        beq_iff_eq.mpr (keyed k old found)⟩
    rw [if_pos (List.contains_iff_mem.mpr present), if_pos listed, replaced]
  · have absent : ∀ e ∈ keys.filterMap find, key e ≠ k := by
      intro e member same
      rcases List.mem_filterMap.mp member with ⟨j, inside, found⟩
      exact present (same ▸ keyed j e found ▸ inside)
    have unlisted : ¬(keys.filterMap find).any (key · == k) = true := by
      rw [List.any_eq_true]
      rintro ⟨e, member, same⟩
      exact absent e member (beq_iff_eq.mp same)
    rw [if_neg (mt List.contains_iff_mem.mp present), if_neg unlisted, List.filterMap_append, replaced]
    congr 1
    · refine (List.map_congr_left ?_).trans (List.map_id _)
      intro e member
      rw [if_neg (mt beq_iff_eq.mp (absent e member))]
      rfl
    · rw [List.filterMap_cons, own]
      rfl

end SmolNas.Lib
