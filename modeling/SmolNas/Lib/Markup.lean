import SmolNas.Lib.Entities

/-! Markup with escaped texts: what a page writes as tags and texts is read as these tags and
texts, whatever the texts are. -/

namespace SmolNas.Lib

variable {α : Type} [DecidableEq α]

/-- The brackets of the tags, and the codes of the texts between them. The codes keep the
bracket that opens a tag out of the texts. -/
structure Markup (α : Type) [DecidableEq α] where
  entities : Entities α
  opening : α
  closing : α
  replaced : opening ∈ entities.codes.map Prod.fst
  plain : opening ≠ entities.mark

inductive Piece (α : Type) where
  | tag (inner : List α)
  | text (s : List α)
  deriving DecidableEq, Repr

namespace Markup

section Reading

def flush (s : List α) : List (Piece α) := if s = [] then [] else [.text s]

/-- The pieces after the text `s`: texts that meet are one, and none is empty. -/
def gather : List α → List (Piece α) → List (Piece α)
  | s, [] => flush s
  | s, .text t :: pieces => gather (s ++ t) pieces
  | s, .tag inner :: pieces => flush s ++ .tag inner :: gather [] pieces

variable (m : Markup α)

def writePiece : Piece α → List α
  | .tag inner => m.opening :: inner ++ [m.closing]
  | .text s => m.entities.escape s

def write (pieces : List (Piece α)) : List α := pieces.flatMap m.writePiece

/-- Reads on inside of a tag or of a text, of which `seen` has been read. A tag that is not
closed is dropped. -/
def readFrom : Bool → List α → List α → List (Piece α)
  | false, seen, [] => flush (m.entities.decode seen)
  | true, _, [] => []
  | false, seen, c :: s =>
      if c = m.opening then flush (m.entities.decode seen) ++ readFrom true [] s
      else readFrom false (seen ++ [c]) s
  | true, seen, c :: s =>
      if c = m.closing then .tag seen :: readFrom false [] s else readFrom true (seen ++ [c]) s

def read (s : List α) : List (Piece α) := m.readFrom false [] s

end Reading

section RoundTrip

variable {m : Markup α}

theorem readFrom_text {text : List α} (free : m.opening ∉ text) (seen s : List α) :
    m.readFrom false seen (text ++ s) = m.readFrom false (seen ++ text) s := by
  induction text generalizing seen with
  | nil => rw [List.nil_append, List.append_nil]
  | cons c text ih =>
      have other : c ≠ m.opening := fun same => free (by simp [same])
      rw [List.cons_append, readFrom, if_neg other, ih fun inside => free (by simp [inside]),
        List.append_assoc, List.singleton_append]

theorem readFrom_tag {inner : List α} (free : m.closing ∉ inner) (seen s : List α) :
    m.readFrom true seen (inner ++ m.closing :: s) =
      .tag (seen ++ inner) :: m.readFrom false [] s := by
  induction inner generalizing seen with
  | nil => rw [List.nil_append, List.append_nil, readFrom, if_pos rfl]
  | cons c inner ih =>
      have other : c ≠ m.closing := fun same => free (by simp [same])
      rw [List.cons_append, readFrom, if_neg other, ih fun inside => free (by simp [inside]),
        List.append_assoc, List.singleton_append]

theorem escape_append (s t : List α) :
    m.entities.escape (s ++ t) = m.entities.escape s ++ m.entities.escape t :=
  List.flatMap_append

theorem opening_escaped (s : List α) : m.opening ∉ m.entities.escape s := by
  rcases List.mem_map.mp m.replaced with ⟨entry, member, same⟩
  rw [← same]
  exact m.entities.escape_clean s member (same ▸ m.plain)

theorem readFrom_write {pieces : List (Piece α)}
    (closed : ∀ inner, .tag inner ∈ pieces → m.closing ∉ inner) (s : List α) :
    m.readFrom false (m.entities.escape s) (m.write pieces) = gather s pieces := by
  induction pieces generalizing s with
  | nil =>
      change m.readFrom false (m.entities.escape s) [] = _
      rw [readFrom, m.entities.decode_escape, gather]
  | cons piece pieces ih =>
      have rest := ih fun inner member => closed inner (List.mem_cons_of_mem piece member)
      rw [write, List.flatMap_cons]
      cases piece with
      | text t =>
          rw [writePiece, readFrom_text (opening_escaped t), ← escape_append, gather]
          exact rest (s ++ t)
      | tag inner =>
          have free := closed inner List.mem_cons_self
          rw [writePiece, List.cons_append, List.cons_append, List.append_assoc,
            List.singleton_append, readFrom, if_pos rfl, readFrom_tag free,
            m.entities.decode_escape, gather]
          exact congrArg (flush s ++ .tag inner :: ·) (rest [])

theorem read_write {pieces : List (Piece α)}
    (closed : ∀ inner, .tag inner ∈ pieces → m.closing ∉ inner) :
    m.read (m.write pieces) = gather [] pieces :=
  readFrom_write closed []

end RoundTrip

end Markup

end SmolNas.Lib
