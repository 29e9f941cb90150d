import SmolNas.App.FieldValues

/-! A share that was just added, for the scan that deletes it. -/

namespace SmolNas.App

open Py Lib

section Scan

variable {name : Str}

theorem skips_header {line : Str} (skipped : skips name false line = true) :
    strip line = '[' :: name ++ [']'] := by
  unfold skips at skipped
  split at skipped
  next opens =>
    rw [isSectionLine, Bool.and_eq_true] at opens
    rcases List.isPrefixOf_iff_prefix.mp opens.1 with ⟨rest, front⟩
    rcases List.isSuffixOf_iff_suffix.mp opens.2 with ⟨start, back⟩
    rw [sectionText, beq_iff_eq, ← front, List.singleton_append, List.drop_one,
      List.tail_cons] at skipped
    rw [← front, List.singleton_append] at back ⊢
    have some : rest ≠ [] := by
      intro empty
      rw [empty] at back
      have last := congrArg List.getLast? back
      rw [List.getLast?_concat] at last
      cases last
    have last : rest.getLast some = ']' := by
      have ends := congrArg List.getLast? back
      rw [List.getLast?_concat, List.getLast?_cons, List.getLast?_eq_some_getLast some] at ends
      exact (Option.some.inj ends).symm
    rw [← List.dropLast_append_getLast some, skipped, last, List.cons_append]
  next => cases skipped

theorem skips_own {line : Str} (own : strip line = '[' :: name ++ [']']) (skip : Bool) :
    skips name skip line = true := by
  have opens : isSectionLine line = true := by
    rw [isSectionLine, own, Bool.and_eq_true]
    exact ⟨rfl, List.isSuffixOf_iff_suffix.mpr (List.suffix_append _ _)⟩
  have text : sectionText line = name := by
    rw [sectionText, own, List.cons_append, List.drop_one, List.tail_cons, List.dropLast_concat]
  rw [skips, opens, if_pos rfl, text, beq_self_eq_true]

theorem deleteScan_kept {lines : List Str} (other : ∀ line ∈ lines, skips name false line = false)
    (rest : List Str) :
    deleteScan name false (lines ++ rest) = lines ++ deleteScan name false rest := by
  induction lines with
  | nil => rfl
  | cons line lines ih =>
      have own := other line List.mem_cons_self
      rw [List.cons_append, deleteScan, own, if_neg Bool.false_ne_true,
        ih fun l member => other l (List.mem_cons_of_mem _ member), List.cons_append]

theorem deleteScan_skipped {lines : List Str}
    (plain : ∀ line ∈ lines, isSectionLine line = false) : deleteScan name true lines = [] := by
  induction lines with
  | nil => rfl
  | cons line lines ih =>
      have own : skips name true line = true := by
        rw [skips, plain line List.mem_cons_self, if_neg Bool.false_ne_true]
      rw [deleteScan, own, if_pos rfl]
      exact ih fun l member => plain l (List.mem_cons_of_mem _ member)

end Scan

section Lines

variable {name path validUsers readOnly guestOk conf : Str}

theorem strip_feed {header : Str} (some : header ≠ [])
    (fresh : ∀ line ∈ readlines conf, strip line ≠ header) :
    ∀ line ∈ readlines (conf ++ ['\n']), strip line ≠ header := by
  intro line member same
  have text : chomp line ∈ texts (conf ++ ['\n']) := List.mem_map_of_mem member
  have old : chomp line ∈ texts conf → False := by
    intro inside
    rcases List.mem_map.mp inside with ⟨source, there, equal⟩
    apply fresh source there
    rw [← strip_chomp, equal, strip_chomp, same]
  rcases texts_feed conf with less | more
  · rw [less] at text
    exact old text
  · rw [more] at text
    rcases List.mem_append.mp text with inside | last
    · exact old inside
    · rw [← strip_chomp, List.mem_singleton.mp last] at same
      exact some same.symm

def fieldTexts (path validUsers readOnly guestOk : Str) : List Str :=
  ["   path = ".toList ++ path, "   valid users = ".toList ++ validUsers,
    "   read only = ".toList ++ readOnly, "   guest ok = ".toList ++ guestOk,
    "   create mask = 0664".toList, "   directory mask = 0775".toList]

theorem shareBody_eq : shareBody path validUsers readOnly guestOk =
    (fieldTexts path validUsers readOnly guestOk).map (· ++ ['\n']) := by
  simp [shareBody, shareLines, fieldTexts]

theorem fieldTexts_plain
    (plain : ∀ text ∈ [path, validUsers, readOnly, guestOk], ∀ c ∈ text, isNewline c = false) :
    ∀ text ∈ fieldTexts path validUsers readOnly guestOk, ∀ c ∈ text, isNewline c = false := by
  have lead {front text : Str} (fixed : front.all (!isNewline ·) = true)
      (member : text ∈ [path, validUsers, readOnly, guestOk]) :
      ∀ c ∈ front ++ text, isNewline c = false := by
    intro c inside
    rcases List.mem_append.mp inside with first | second
    · exact all_plain.mp fixed c first
    · exact plain text member c second
  intro text member
  simp only [fieldTexts, List.mem_cons, List.not_mem_nil, or_false] at member
  rcases member with rfl | rfl | rfl | rfl | rfl | rfl
  · exact lead (by decide) (by simp)
  · exact lead (by decide) (by simp)
  · exact lead (by decide) (by simp)
  · exact lead (by decide) (by simp)
  · exact all_plain.mp (by decide)
  · exact all_plain.mp (by decide)

theorem readlines_addShareToConf (plainName : ∀ c ∈ name, isNewline c = false)
    (plain : ∀ text ∈ [path, validUsers, readOnly, guestOk], ∀ c ∈ text, isNewline c = false) :
    readlines (addShareToConf name path validUsers readOnly guestOk conf) =
      readlines (conf ++ ['\n']) ++ ('[' :: name ++ [']'] ++ ['\n']) ::
        (fieldTexts path validUsers readOnly guestOk).map (· ++ ['\n']) := by
  have whole : addShareToConf name path validUsers readOnly guestOk conf =
      (conf ++ ['\n']) ++ (('[' :: name ++ [']'] ++ ['\n']) ++
        ((fieldTexts path validUsers readOnly guestOk).map (· ++ ['\n'])).flatten) := by
    rw [← shareBody_eq]
    simp [addShareToConf, shareLines, shareBody]
  rw [whole, readlines_append (terminated_concat conf), readlines_append (terminated_concat _),
    readlines_single (header_plain plainName), readlines_block (fieldTexts_plain plain),
    List.singleton_append]

theorem fieldTexts_sections : ∀ line ∈ (fieldTexts path validUsers readOnly guestOk).map (· ++ ['\n']),
    isSectionLine line = false := by
  have field {front : Str} (first : (lstrip front).head?.any (· != '[') = true) (text : Str) :
      isSectionLine (front ++ text ++ ['\n']) = false := by
    rw [← Bool.not_eq_true]
    intro opens
    have header := isHeader_section opens
    rw [List.append_assoc, lead_not_header first] at header
    cases header
  intro line member
  rcases List.mem_map.mp member with ⟨text, inside, rfl⟩
  simp only [fieldTexts, List.mem_cons, List.not_mem_nil, or_false] at inside
  rcases inside with rfl | rfl | rfl | rfl | rfl | rfl
  · exact field (by decide) path
  · exact field (by decide) validUsers
  · exact field (by decide) readOnly
  · exact field (by decide) guestOk
  · decide
  · decide

end Lines

/-- A share that was just added is deleted with all its lines but the blank one before it,
however the file ended and whatever the fields hold. -/
theorem delete_added_share (name path validUsers readOnly guestOk conf : Str)
    (feeds : '\r' ∉ conf) (fresh : ∀ line ∈ readlines conf, strip line ≠ '[' :: name ++ [']'])
    (plain : ∀ text ∈ [name, path, validUsers, readOnly, guestOk], ∀ c ∈ text, isNewline c = false) :
    deleteShareFromConf name (addShareToConf name path validUsers readOnly guestOk conf) =
      conf ++ ['\n'] := by
  have plainName := plain name List.mem_cons_self
  have plainBody := fun text member => plain text (List.mem_cons_of_mem name member)
  have kept : ∀ line ∈ readlines (conf ++ ['\n']), skips name false line = false := by
    intro line member
    rw [← Bool.not_eq_true]
    intro skipped
    exact strip_feed (by simp) fresh line member (skips_header skipped)
  have opened : skips name false ('[' :: name ++ [']'] ++ ['\n']) = true :=
    skips_own ((strip_concat (by decide) _).trans (strip_header name)) false
  have free : '\r' ∉ conf ++ ['\n'] := by
    rw [List.mem_append, List.mem_singleton]
    intro member
    rcases member with inside | feed
    · exact feeds inside
    · exact absurd feed (by decide)
  calc
    deleteShareFromConf name (addShareToConf name path validUsers readOnly guestOk conf) =
        (readlines (conf ++ ['\n']) ++ deleteScan name false (('[' :: name ++ [']'] ++ ['\n']) ::
          (fieldTexts path validUsers readOnly guestOk).map (· ++ ['\n']))).flatten := by
      rw [deleteShareFromConf, readlines_addShareToConf plainName plainBody, deleteScan_kept kept]
    _ = (readlines (conf ++ ['\n'])).flatten := by
      rw [deleteScan, opened, if_pos rfl, deleteScan_skipped fieldTexts_sections, List.append_nil]
    _ = conf ++ ['\n'] := by
      rw [readlines, flatten_keepends, newlines_feeds _ free]

/-- A file that ends in a section without a line feed, and fields that look like headers. -/
theorem delete_added_share_brackets :
    deleteShareFromConf "a]b".toList (addShareToConf "a]b".toList " [a]b] ".toList "[x]".toList
        "no".toList "=".toList "[global]\n  [a]\nkey = v".toList) =
      "[global]\n  [a]\nkey = v\n".toList :=
  delete_added_share _ _ _ _ _ _ (by decide +kernel) (by decide +kernel)
    (by
      simp only [List.forall_mem_cons, ← all_plain]
      decide +kernel)

end SmolNas.App
