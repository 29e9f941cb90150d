import SmolNas.App.Uploads

/-! The name under which `upload_file` saves a file. A long name is cut before its extension;
the room that is left for the rest is a slice bound, and it may be negative. -/

namespace SmolNas.App

open Py Fs

/-- The name fits a directory, and the extension is still there if there is room for it. -/
def KeepsName (filename : Str) : Prop :=
  (shorten filename).length ≤ 255 ∧ shorten filename ≠ [] ∧
    ((splitext filename).2.length < 255 → (splitext (shorten filename)).2 = (splitext filename).2)

instance (filename : Str) : Decidable (KeepsName filename) := inferInstanceAs (Decidable (_ ∧ _))

section Split

theorem reverse_other {c : Char} {s : Str} (missing : c ∉ s) :
    ∀ d ∈ s.reverse, decide (d ≠ c) = true := by
  intro d member
  rw [List.mem_reverse] at member
  rw [decide_eq_true_iff]
  intro same
  rw [same] at member
  exact missing member

theorem splitext_plain {name : Str} (plain : '.' ∉ name) : splitext name = (name, []) := by
  have none : name.reverse.dropWhile (· ≠ '.') = [] :=
    List.dropWhile_eq_nil_iff.mpr (reverse_other plain)
  unfold splitext
  dsimp only
  rw [none]

theorem splitext_dot {c : Char} {stem tail : Str} (lead : c ≠ '.') (path : '/' ∉ c :: stem)
    (plain : '.' ∉ tail) (slash : '/' ∉ tail) :
    splitext (c :: stem ++ '.' :: tail) = (c :: stem, '.' :: tail) := by
  have turned : (c :: stem ++ '.' :: tail).reverse = tail.reverse ++ '.' :: (c :: stem).reverse := by
    simp
  have all := reverse_other plain
  have whole : (c :: stem).reverse.takeWhile (· ≠ '/') = (c :: stem).reverse :=
    List.takeWhile_eq_self_iff.mpr (reverse_other path)
  unfold splitext
  dsimp only
  rw [turned, List.takeWhile_append_of_pos all, List.dropWhile_append_of_pos all,
    List.takeWhile_cons_of_neg (by simp), List.dropWhile_cons_of_neg (by simp), List.append_nil]
  dsimp only
  rw [if_neg (by simpa using slash), whole, if_pos (by simp [lead]), List.reverse_reverse,
    List.reverse_reverse]

theorem dot_cases {name : Str} (lead : name.head? ≠ some '.') :
    '.' ∉ name ∨ ∃ c stem tail, c ≠ '.' ∧ '.' ∉ tail ∧ name = c :: stem ++ '.' :: tail := by
  by_cases dotted : '.' ∈ name
  · right
    rcases List.eq_append_cons_of_mem (List.mem_reverse.mpr dotted) with
      ⟨back, front, turned, plain⟩
    have whole : name = front.reverse ++ '.' :: back.reverse := by
      rw [← List.reverse_reverse name, turned]
      simp
    rw [← List.mem_reverse] at plain
    cases stem : front.reverse with
    | nil =>
        rw [stem] at whole
        rw [whole] at lead
        exact absurd rfl lead
    | cons c stem' =>
        rw [stem] at whole
        refine ⟨c, stem', back.reverse, ?_, plain, whole⟩
        intro dot
        rw [whole, dot] at lead
        exact lead rfl
  · exact .inl dotted

end Split

section Shortened

variable {name : Str}

theorem shorten_ne_nil (some : name ≠ []) : shorten name ≠ [] := by
  by_cases long : name.length > 255
  · have length := shorten_length long
    intro empty
    rw [empty] at length
    cases length
  · rwa [shorten, if_neg long]

theorem shorten_room (long : name.length > 255) (room : (splitext name).2.length ≤ 255) :
    shorten name = (splitext name).1.take (255 - (splitext name).2.length) ++ (splitext name).2 := by
  rw [shorten, if_pos long]
  dsimp only
  rw [sliceTo, if_neg (by omega)]
  congr 2
  omega

theorem shorten_length_le (fits : name.length ≤ 255 ∨ (splitext name).2.length ≤ 255) :
    (shorten name).length ≤ 255 := by
  by_cases long : name.length > 255
  · have room : (splitext name).2.length ≤ 255 := by omega
    rw [shorten_room long room, List.length_append, List.length_take]
    omega
  · rw [shorten, if_neg long]
    omega

theorem shorten_length_gt (long : name.length > 255) (wide : (splitext name).2.length > 255) :
    255 < (shorten name).length := by
  rw [shorten, if_pos long]
  dsimp only
  rw [List.length_append]
  omega

theorem splitext_shorten (lead : name.head? ≠ some '.') (path : '/' ∉ name)
    (room : (splitext name).2.length < 255) :
    (splitext (shorten name)).2 = (splitext name).2 := by
  by_cases long : name.length > 255
  · rw [shorten_room long (by omega)]
    rcases dot_cases lead with plain | ⟨c, stem, tail, first, plain, whole⟩
    · have cut : '.' ∉ name.take 255 := fun member => plain (List.mem_of_mem_take member)
      rw [splitext_plain plain]
      dsimp only [List.length_nil, Nat.sub_zero]
      rw [List.append_nil, splitext_plain cut]
    · rw [whole, List.mem_append, not_or, List.mem_cons (b := '.'), not_or] at path
      rcases path with ⟨front, -, back⟩
      have split := splitext_dot first front plain back
      rw [whole, split] at room ⊢
      dsimp only at room ⊢
      rcases Nat.exists_eq_succ_of_ne_zero (n := 255 - ('.' :: tail).length) (by omega) with
        ⟨left, count⟩
      have cut : '/' ∉ c :: stem.take left := by
        intro member
        rw [← List.take_succ_cons] at member
        exact front (List.mem_of_mem_take member)
      rw [count, List.take_succ_cons, splitext_dot first cut plain back]
  · rw [shorten, if_neg long]

end Shortened

/-- For a result of `secure_filename`, which never starts with a dot, the name is kept as it
should be exactly if it is short or its extension leaves room. -/
theorem keeps_name_iff (s : Sanitizer)
    (trimmed : ∀ filename, (s.secureFilename filename).head? ≠ some '.') (client : Str)
    (kept : s.secureFilename client ≠ []) :
    KeepsName (s.secureFilename client) ↔
      (s.secureFilename client).length ≤ 255 ∨
        (splitext (s.secureFilename client)).2.length ≤ 255 := by
  have path : '/' ∉ s.secureFilename client := by
    intro member
    exact absurd (s.safe client '/' member) (by decide)
  constructor
  · intro keeps
    by_contra other
    simp only [not_or, not_le] at other
    have length := shorten_length_gt other.1 other.2
    have bound := keeps.1
    omega
  · intro fits
    exact ⟨shorten_length_le fits, shorten_ne_nil kept, splitext_shorten (trimmed client) path⟩

theorem trim_head (s : Str) : (trim s).head? ≠ some '.' := by
  intro lead
  have first : (s.dropWhile isTrimmed).head? = some '.' := by
    rcases List.rdropWhile_prefix isTrimmed (s.dropWhile isTrimmed) with ⟨rest, whole⟩
    rw [← whole, List.head?_append]
    rw [trim] at lead
    rw [lead]
    rfl
  have other := List.head?_dropWhile_not isTrimmed s
  rw [first] at other
  exact absurd other (by decide)

theorem keeps_name_many_dots :
    asciiSanitizer.secureFilename (List.replicate 300 'a' ++ ".tar.gz".toList) ≠ [] ∧
      KeepsName (asciiSanitizer.secureFilename (List.replicate 300 'a' ++ ".tar.gz".toList)) := by
  have kept : asciiSanitizer.secureFilename (List.replicate 300 'a' ++ ".tar.gz".toList) ≠ [] := by
    decide +kernel
  refine ⟨kept, (keeps_name_iff asciiSanitizer (fun _ => trim_head _) _ kept).mpr (.inr ?_)⟩
  decide +kernel

/-- Three hundred letters after the dot: the name that is saved has 301 characters. -/
theorem long_extension_not_cut : ¬∀ (s : Sanitizer) (client : Str),
    (∀ filename, (s.secureFilename filename).head? ≠ some '.') →
    s.secureFilename client ≠ [] → KeepsName (s.secureFilename client) := by
  intro all
  have keeps := all asciiSanitizer ("a.".toList ++ List.replicate 300 'b')
    (fun _ => trim_head _) (by decide +kernel)
  revert keeps
  decide +kernel

end SmolNas.App
