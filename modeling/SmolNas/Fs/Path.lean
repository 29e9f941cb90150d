import SmolNas.Py.Str

/-! `posixpath`: path strings, their components and their lexical normal form. -/

namespace SmolNas.Fs

open Py

def curdir : Str := ['.']

def pardir : Str := ['.', '.']

def isabs (p : Str) : Bool := startswith p ['/']

def components (p : Str) : List Str := p.splitOn '/'

/-- `os.path.join(a, b)`. -/
def pathJoin (a b : Str) : Str :=
  if isabs b then b
  else if a = [] ∨ endswith a ['/'] = true then a ++ b
  else a ++ '/' :: b

/-- A component that stands for the directory it is read in. -/
def isHere (comp : Str) : Bool := comp == [] || comp == curdir

def normStep (absolute : Bool) (acc : List Str) (comp : Str) : List Str :=
  if isHere comp then acc
  else if comp ≠ pardir ∨ (absolute = false ∧ acc = []) ∨ acc.getLast? = some pardir then
    acc ++ [comp]
  else acc.dropLast

theorem normStep_proper (absolute : Bool) (acc : List Str) {comp : Str}
    (proper : isHere comp = false ∧ comp ≠ pardir) :
    normStep absolute acc comp = acc ++ [comp] := by
  rw [normStep, if_neg (by simp [proper.1]), if_pos (Or.inl proper.2)]

theorem mem_normStep {absolute : Bool} {acc : List Str} {comp name : Str}
    (member : name ∈ normStep absolute acc comp) :
    name ∈ acc ∨ name = comp ∧ isHere comp = false ∧
      (comp ≠ pardir ∨ (absolute = false ∧ acc = []) ∨ acc.getLast? = some pardir) := by
  unfold normStep at member
  split at member
  · exact .inl member
  next proper =>
    split at member
    next kept =>
      rcases List.mem_append.mp member with old | new
      · exact .inl old
      · exact .inr ⟨List.mem_singleton.mp new, Bool.eq_false_iff.mpr proper, kept⟩
    next => exact .inl (List.dropLast_subset _ member)

def normComponents (absolute : Bool) (comps : List Str) : List Str :=
  comps.foldl (normStep absolute) []

/-- Exactly two leading slashes are kept, as POSIX allows. -/
def initialSlashes (p : Str) : Nat :=
  if startswith p ['/', '/'] && !startswith p ['/', '/', '/'] then 2
  else if isabs p then 1
  else 0

def normpath (p : Str) : Str :=
  let slashes := initialSlashes p
  let path := List.replicate slashes '/' ++
    join ['/'] (normComponents (slashes != 0) (components p))
  if path = [] then curdir else path

/-- `os.path.abspath(p)` in the working directory `cwd`. -/
def abspath (cwd p : Str) : Str := normpath (if isabs p then p else pathJoin cwd p)

def validName (name : Str) : Bool :=
  !isHere name && name != pardir && !name.contains '/' && !name.contains '\x00'

/-- The path string of a location, the list of names from the root directory. -/
def locText (loc : List Str) : Str := '/' :: join ['/'] loc

def pathNames (p : Str) : List Str := (components p).filter (· ≠ [])

theorem components_append (a b : Str) :
    components (a ++ '/' :: b) = components a ++ components b :=
  List.splitOn_append_cons_self a b

theorem pathNames_append (a b : Str) :
    pathNames (a ++ '/' :: b) = pathNames a ++ pathNames b := by
  simp only [pathNames, components_append, List.filter_append]

theorem validName_spec {name : Str} (valid : validName name = true) :
    name ≠ [] ∧ isHere name = false ∧ name ≠ pardir ∧ '/' ∉ name := by
  simp only [validName, Bool.and_eq_true, Bool.not_eq_true', bne_iff_ne,
    List.contains_eq_mem, decide_eq_false_iff_not] at valid
  rcases valid with ⟨⟨⟨here, parent⟩, slash⟩, -⟩
  refine ⟨?_, here, parent, slash⟩
  intro equal
  subst equal
  simp [isHere] at here

theorem components_locText (loc : List Str) (valid : ∀ name ∈ loc, validName name = true)
    (nonempty : loc ≠ []) : components (locText loc) = [] :: loc := by
  have slashes : ∀ name ∈ loc, '/' ∉ name := fun name member =>
    (validName_spec (valid name member)).2.2.2
  have body := List.splitOn_intercalate '/' slashes nonempty
  have split := components_append [] (join ['/'] loc)
  simp only [List.nil_append] at split
  rw [locText, split]
  exact congrArg ([] :: ·) body

theorem pathNames_locText (loc : List Str) (valid : ∀ name ∈ loc, validName name = true) :
    pathNames (locText loc) = loc := by
  cases loc with
  | nil => rfl
  | cons name loc =>
      rw [pathNames, components_locText _ valid (by simp)]
      rw [List.filter_cons_of_neg (by simp), List.filter_eq_self]
      intro other member
      simpa using (validName_spec (valid other member)).1

theorem components_no_slash (p : Str) : ∀ comp ∈ components p, '/' ∉ comp := by
  unfold components
  induction p with
  | nil => simp
  | cons c p ih =>
      rw [List.splitOn_cons_eq_if_modifyHead]
      split
      · intro comp member
        rcases List.mem_cons.mp member with rfl | member
        · simp
        · exact ih comp member
      · rename_i other
        cases parts : p.splitOn '/' with
        | nil => simp at parts
        | cons first rest =>
            rw [parts] at ih
            intro comp member
            rcases List.mem_cons.mp member with rfl | member
            · have tail := ih first (by simp)
              simp only [beq_iff_eq] at other
              simp [Ne.symm other, tail]
            · exact ih comp (by simp [member])

theorem mem_components {p : Str} {c : Char} (member : c ∈ p) (other : c ≠ '/') :
    ∃ comp ∈ components p, c ∈ comp := by
  unfold components
  induction p with
  | nil => cases member
  | cons d p ih =>
      rw [List.splitOn_cons_eq_if_modifyHead]
      rcases List.mem_cons.mp member with same | later
      · rw [if_neg (by simpa [← same] using other)]
        cases parts : p.splitOn '/' with
        | nil => simp at parts
        | cons first rest => exact ⟨d :: first, by simp, by simp [same]⟩
      · rcases ih later with ⟨comp, inside, found⟩
        split
        · exact ⟨comp, List.mem_cons_of_mem _ inside, found⟩
        · cases parts : p.splitOn '/' with
          | nil => simp at parts
          | cons first rest =>
              rw [parts] at inside
              rcases List.mem_cons.mp inside with same | tail
              · exact ⟨d :: first, by simp, List.mem_cons_of_mem _ (same ▸ found)⟩
              · exact ⟨comp, by simp [tail], found⟩

theorem mem_of_components {p comp : Str} (member : comp ∈ components p) {c : Char}
    (inside : c ∈ comp) : c ∈ p := by
  rcases List.mem_iff_getElem?.mp member with ⟨i, place⟩
  have part : comp ∈ (components p).intersperse ['/'] :=
    List.mem_of_getElem? (List.getElem?_intersperse_two_mul.trans place)
  have whole : ((components p).intersperse ['/']).flatten = p := List.intercalate_splitOn '/'
  rw [← whole]
  exact List.mem_flatten.mpr ⟨comp, part, inside⟩

theorem normComponents_concat (absolute : Bool) (comps : List Str) (comp : Str) :
    normComponents absolute (comps ++ [comp]) =
      normStep absolute (normComponents absolute comps) comp := by
  rw [normComponents, List.foldl_append, List.foldl_cons, List.foldl_nil]
  rfl

theorem normComponents_pathNames (absolute : Bool) (p : Str) :
    normComponents absolute (pathNames p) = normComponents absolute (components p) := by
  unfold pathNames
  induction components p using List.reverseRecOn with
  | nil => rfl
  | append_singleton comps comp ih =>
      rw [List.filter_append, normComponents_concat]
      by_cases empty : comp = []
      · rw [List.filter_cons_of_neg (by simp [empty]), List.filter_nil, List.append_nil, ih, empty]
        rfl
      · rw [List.filter_cons_of_pos (by simp [empty]), List.filter_nil, normComponents_concat, ih]

theorem normComponents_subset (absolute : Bool) (comps : List Str) :
    ∀ name ∈ normComponents absolute comps, name ∈ comps := by
  induction comps using List.reverseRecOn with
  | nil => simp [normComponents]
  | append_singleton comps comp ih =>
      rw [normComponents_concat]
      intro name member
      rcases mem_normStep member with old | ⟨rfl, -⟩
      · exact List.mem_append_left _ (ih name old)
      · exact List.mem_append_right _ List.mem_cons_self

theorem normComponents_named (absolute : Bool) (comps : List Str) :
    ∀ name ∈ normComponents absolute comps, isHere name = false := by
  induction comps using List.reverseRecOn with
  | nil => simp [normComponents]
  | append_singleton comps comp ih =>
      rw [normComponents_concat]
      intro name member
      rcases mem_normStep member with old | ⟨rfl, named, -⟩
      · exact ih name old
      · exact named

theorem pardir_notMem_normComponents (comps : List Str) : pardir ∉ normComponents true comps := by
  induction comps using List.reverseRecOn with
  | nil => simp [normComponents]
  | append_singleton comps comp ih =>
      rw [normComponents_concat]
      intro member
      rcases mem_normStep member with old | ⟨rfl, -, other | ⟨relative, -⟩ | parent⟩
      · exact ih old
      · exact other rfl
      · cases relative
      · exact ih (List.mem_of_getLast? parent)

theorem normComponents_proper (comps : List Str) :
    ∀ name ∈ normComponents true comps, isHere name = false ∧ name ≠ pardir := by
  intro name member
  refine ⟨normComponents_named true comps name member, ?_⟩
  intro parent
  rw [parent] at member
  exact pardir_notMem_normComponents comps member

theorem initialSlashes_absolute {p : Str} (absolute : isabs p = true) :
    ∃ k, initialSlashes p = k + 1 := by
  rw [initialSlashes, if_pos absolute]
  split
  · exact ⟨1, rfl⟩
  · exact ⟨0, rfl⟩

theorem components_normpath (p : Str) (absolute : isabs p = true) :
    ∃ front, (∀ comp ∈ front, comp = []) ∧
      (components (normpath p) = front ++ normComponents true (components p)) := by
  have slashes : ∀ name ∈ normComponents true (components p), '/' ∉ name := fun name member =>
    components_no_slash p name (normComponents_subset true _ name member)
  rcases initialSlashes_absolute absolute with ⟨k, count⟩
  have text : normpath p =
      List.replicate (k + 1) '/' ++ join ['/'] (normComponents true (components p)) := by
    unfold normpath
    rw [count]
    simp [List.replicate_succ]
  have leading (n : Nat) (body : Str) :
      components (List.replicate n '/' ++ body) = List.replicate n [] ++ components body := by
    induction n with
    | zero => rfl
    | succ n ih =>
        have step := components_append [] (List.replicate n '/' ++ body)
        rw [ih] at step
        exact step
  rw [text, leading]
  cases names : normComponents true (components p) with
  | nil => exact ⟨List.replicate (k + 1) [] ++ [[]], by simp, by simp [join, components]⟩
  | cons name rest =>
      rw [names] at slashes
      refine ⟨List.replicate (k + 1) [], by simp, ?_⟩
      rw [components, join, List.splitOn_intercalate '/' slashes (by simp)]

section Relative

variable {names : List Str} {name : Str}

theorem components_join (valid : ∀ name ∈ names, validName name = true) (some : names ≠ []) :
    components (join ['/'] names) = names :=
  List.splitOn_intercalate '/' (fun name member => (validName_spec (valid name member)).2.2.2) some

theorem nil_notMem (valid : ∀ name ∈ names, validName name = true) : [] ∉ names := by
  intro member
  exact (validName_spec (valid [] member)).1 rfl

theorem join_relative (valid : ∀ name ∈ names, validName name = true) :
    isabs (join ['/'] names) = false := by
  by_cases some : names = []
  · rw [some]
    rfl
  · rw [← Bool.not_eq_true]
    intro absolute
    rcases List.isPrefixOf_iff_prefix.mp absolute with ⟨rest, whole⟩
    have parts := components_append [] rest
    rw [List.nil_append, ← List.singleton_append, whole, components_join valid some] at parts
    apply nil_notMem valid
    rw [parts]
    simp [components]

theorem join_unterminated (valid : ∀ name ∈ names, validName name = true) :
    endswith (join ['/'] names) ['/'] = false := by
  by_cases some : names = []
  · rw [some]
    rfl
  · rw [← Bool.not_eq_true]
    intro slash
    rcases List.isSuffixOf_iff_suffix.mp slash with ⟨front, whole⟩
    have parts := components_append front []
    rw [whole, components_join valid some] at parts
    apply nil_notMem valid
    rw [parts]
    simp [components]

theorem join_ne_nil (valid : ∀ name ∈ names, validName name = true) (some : names ≠ []) :
    join ['/'] names ≠ [] := by
  intro empty
  have parts := components_join valid some
  rw [empty] at parts
  apply nil_notMem valid
  rw [← parts]
  simp [components]

theorem pathJoin_join (valid : ∀ name ∈ names, validName name = true)
    (own : validName name = true) :
    pathJoin (join ['/'] names) name = join ['/'] (names ++ [name]) := by
  have relative : isabs name = false := by
    have single := @join_relative [name] (by simpa using own)
    rwa [show join ['/'] [name] = name by simp [join]] at single
  rw [pathJoin, relative, if_neg Bool.false_ne_true]
  cases names with
  | nil => simp [join]
  | cons first rest =>
      rw [if_neg]
      · have whole := join_append ['/'] first rest name []
        rw [show join ['/'] [name] = name by simp [join]] at whole
        exact whole.symm
      · rw [not_or]
        exact ⟨join_ne_nil valid (by simp), by simp [join_unterminated valid]⟩

end Relative

end SmolNas.Fs
