import Mathlib.Data.List.Basic

/-! Items in blocks: some items open a block, and every item belongs to the block that was
opened last. -/

namespace SmolNas.Lib

section Blocks

variable {α κ : Type} (opens : α → Option κ)

def lastOpened (items : List α) : Option κ := items.reverse.findSome? opens

def inBlocks : Option κ → List α → List (Option κ × α)
  | _, [] => []
  | block, item :: items =>
      let block := (opens item).or block
      (block, item) :: inBlocks block items

def ofBlocks (chosen : Option κ → Bool) (items : List α) : List α :=
  ((inBlocks opens none items).filter fun entry => chosen entry.1).map Prod.snd

theorem lastOpened_concat (items : List α) (item : α) :
    lastOpened opens (items ++ [item]) = (opens item).or (lastOpened opens items) := by
  rw [lastOpened, List.reverse_concat, List.findSome?_cons]
  cases opens item <;> rfl

theorem inBlocks_items (block : Option κ) (items : List α) :
    (inBlocks opens block items).map Prod.snd = items := by
  induction items generalizing block with
  | nil => rfl
  | cons item items ih => rw [inBlocks, List.map_cons, ih]

theorem inBlocks_zipIdx (before items : List α) :
    inBlocks opens (lastOpened opens before) items =
      (items.zipIdx before.length).map fun place =>
        (lastOpened opens ((before ++ items).take (place.2 + 1)), place.1) := by
  induction items generalizing before with
  | nil => rfl
  | cons item items ih =>
      have whole : before ++ item :: items = (before ++ [item]) ++ items := by simp
      have front : (before ++ item :: items).take (before.length + 1) = before ++ [item] := by
        rw [whole]
        exact List.take_left' (by simp)
      have later := ih (before ++ [item])
      rw [lastOpened_concat, List.length_append, List.length_singleton] at later
      rw [inBlocks, List.zipIdx_cons, List.map_cons, front, lastOpened_concat, whole]
      exact congrArg _ later

theorem inBlocks_filter (chosen : Option κ → Bool) (items : List α) {block kept : Option κ}
    (same : chosen block = true → kept = block) :
    inBlocks opens kept
        (((inBlocks opens block items).filter fun entry => chosen entry.1).map Prod.snd) =
      (inBlocks opens block items).filter fun entry => chosen entry.1 := by
  induction items generalizing block kept with
  | nil => rfl
  | cons item items ih =>
      rw [inBlocks]
      by_cases stays : chosen ((opens item).or block) = true
      · have here : (opens item).or kept = (opens item).or block := by
          cases opened : opens item with
          | some name => rfl
          | none =>
              rw [opened, Option.none_or] at stays
              rw [Option.none_or, Option.none_or, same stays]
        rw [List.filter_cons, if_pos stays, List.map_cons, inBlocks, here,
          ih fun _ => rfl]
      · rw [List.filter_cons, if_neg stays]
        exact ih fun chosen => absurd chosen stays

theorem ofBlocks_ofBlocks (chosen further : Option κ → Bool) (items : List α) :
    ofBlocks opens further (ofBlocks opens chosen items) =
      ofBlocks opens (fun block => further block && chosen block) items := by
  rw [ofBlocks, ofBlocks, inBlocks_filter opens chosen items fun _ => rfl, List.filter_filter]
  rfl

theorem ofBlocks_all {chosen : Option κ → Bool} {items : List α}
    (all : ∀ entry ∈ inBlocks opens none items, chosen entry.1 = true) :
    ofBlocks opens chosen items = items := by
  rw [ofBlocks, List.filter_eq_self.mpr all, inBlocks_items]

theorem inBlocks_opened {block : Option κ} {items : List α} {entry : Option κ × α}
    (member : entry ∈ inBlocks opens block items) :
    entry.1 = block ∨ ∃ item ∈ items, opens item = entry.1 := by
  induction items generalizing block with
  | nil => cases member
  | cons item items ih =>
      have first : (opens item).or block = block ∨ opens item = (opens item).or block := by
        cases opens item with
        | some name => exact .inr rfl
        | none => exact .inl rfl
      rcases List.mem_cons.mp member with rfl | later
      · exact first.imp_right fun opened => ⟨item, List.mem_cons_self, opened⟩
      · rcases ih later with same | ⟨other, inside, opened⟩
        · rw [same]
          exact first.imp_right fun opened => ⟨item, List.mem_cons_self, opened⟩
        · exact .inr ⟨other, List.mem_cons_of_mem _ inside, opened⟩

end Blocks

end SmolNas.Lib
