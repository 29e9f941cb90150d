import SmolNas.Lib.Entities

/-! The escaping of the health page: `esc` of `templates/health.html` stands around every text
that the page puts into its markup. -/

namespace SmolNas.App

open Lib

section Units

/-- A string of the page's script: its UTF-16 code units. -/
abbrev Units := List UInt16

def unit (c : Char) : UInt16 := c.toNat.toUInt16

def units (text : String) : Units := text.toList.map unit

/-- `String(value ?? '')` of a string, or of no value, after the five calls of `replace`. -/
def esc (value : Option Units) : Units :=
  let s := value.getD []
  let s := replaceEach (unit '&') (units "&amp;") s
  let s := replaceEach (unit '<') (units "&lt;") s
  let s := replaceEach (unit '>') (units "&gt;") s
  let s := replaceEach (unit '"') (units "&quot;") s
  replaceEach (unit '\'') (units "&#39;") s

def escEntities : Entities UInt16 where
  mark := unit '&'
  codes :=
    [(unit '&', units "&amp;"), (unit '<', units "&lt;"), (unit '>', units "&gt;"),
      (unit '"', units "&quot;"), (unit '\'', units "&#39;")]
  opens := by decide
  replaced := by decide
  apart := by decide
  ordered := by decide
  clean := by decide

theorem esc_eq_escape (s : Units) : esc (some s) = escEntities.escape s :=
  Entities.replaceBy_eq escEntities.ordered s

/-- The five replacements are one pass over the string, and what they give can be read back. -/
theorem esc_one_pass (s : Units) :
    esc (some s) = s.flatMap (fun c => (escEntities.codes.lookup c).getD [c]) ∧
      (∀ c ∈ units "<>\"'", c ∉ esc (some s)) ∧
      (∀ front back, esc (some s) = front ++ unit '&' :: back →
        ∃ entity ∈ ["&amp;", "&lt;", "&gt;", "&quot;", "&#39;"].map units,
          entity <+: unit '&' :: back) ∧
      escEntities.decode (esc (some s)) = s ∧
      ∀ t, esc (some t) = esc (some s) → t = s := by
  have others : units "<>\"'" = escEntities.codes.tail.map Prod.fst := by decide
  have plain : ∀ entry ∈ escEntities.codes.tail, entry.1 ≠ escEntities.mark := by decide
  rw [esc_eq_escape]
  refine ⟨rfl, ?_, ?_, escEntities.decode_escape s, ?_⟩
  · intro c member
    rw [others] at member
    rcases List.mem_map.mp member with ⟨entry, known, rfl⟩
    exact escEntities.escape_clean s (List.mem_of_mem_tail known) (plain entry known)
  · intro front back place
    rcases escEntities.mark_starts s place with ⟨entry, known, starts⟩
    exact ⟨entry.2, List.mem_map_of_mem known, starts⟩
  · intro t same
    rw [esc_eq_escape] at same
    exact escEntities.escape_injective same

example : esc (some (units "a&amp;<b>")) = units "a&amp;amp;&lt;b&gt;" := by decide

end Units

end SmolNas.App
