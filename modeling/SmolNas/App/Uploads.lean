import SmolNas.App.Files
import SmolNas.Fs.Opening

/-! `upload_file`. The directory is checked, the sanitised name is joined to it afterwards,
and the result is opened for writing, through a link if the name is one. -/

namespace SmolNas.App

open Py Fs

def isFileNameChar (c : Char) : Bool := c.isAlphanum || c == '_' || c == '-' || c == '.'

/-- `secure_filename`, by what is known of its results. The empty text stands for a name of
which nothing could be kept. -/
structure Sanitizer where
  secureFilename : Str → Str
  safe : ∀ filename, ∀ c ∈ secureFilename filename, isFileNameChar c = true
  named : ∀ filename, secureFilename filename ≠ curdir ∧ secureFilename filename ≠ pardir

/-- `os.path.splitext`: the extension starts at the last dot of the last component, unless
there are only dots before it. -/
def splitext (p : Str) : Str × Str :=
  let tail := p.reverse.takeWhile (· ≠ '.')
  match p.reverse.dropWhile (· ≠ '.') with
  | [] => (p, [])
  | dot :: before =>
      if tail.contains '/' then (p, [])
      else if (before.takeWhile (· ≠ '/')).any (· ≠ '.') then
        (before.reverse, dot :: tail.reverse)
      else (p, [])

/-- `s[:stop]` -/
def sliceTo (s : Str) (stop : Int) : Str :=
  if stop < 0 then s.take (s.length - stop.natAbs) else s.take stop.toNat

def shorten (filename : Str) : Str :=
  if filename.length > 255 then
    let (stem, ext) := splitext filename
    sliceTo stem (255 - ext.length) ++ ext
  else filename

/-- The arguments of a call of `log_audit_event`. -/
structure AuditEvent where
  username : Str
  action : Str
  filename : Str
  details : Str
  deriving DecidableEq, Repr

/-- How the view ends. `saved` has the file that was written. -/
inductive UploadReply where
  | refused (message : Str)
  | serverError
  | saved (place : Loc) (message : Str) (event : AuditEvent)
  deriving DecidableEq, Repr

def uploadFile (s : Sanitizer) (t : Tree) (cwd user : Str) (file path : Option Str) :
    UploadReply :=
  match file with
  | none => .refused "No file part".toList
  | some client =>
      let path := path.getD []
      if client = [] then .refused "No selected file".toList
      else
        let filename := s.secureFilename client
        if filename = [] then .refused "Invalid filename".toList
        else
          let filename := shorten filename
          let absPath := pathJoin nasRoot path
          match isInsideNasRoot t cwd absPath with
          | none => .serverError
          | some false => .refused "Access Denied".toList
          | some true =>
              match t.opened (pathJoin absPath filename) with
              | none => .serverError
              | some place =>
                  .saved place ("Uploaded ".toList ++ filename)
                    ⟨user, "File Upload".toList, filename, "Target Directory: ".toList ++ absPath⟩

/-- The file is in the tree below the root of the store, as `realpath` finds it. -/
def InStore (t : Tree) (place : Loc) : Prop :=
  ∀ root, t.realpath nasRoot = some root → pathNames root <+: place

def UploadsInside (s : Sanitizer) (t : Tree) (cwd user : Str) (file path : Option Str) : Prop :=
  ∀ place message event,
    uploadFile s t cwd user file path = .saved place message event → InStore t place

section Names

theorem splitext_append (p : Str) : (splitext p).1 ++ (splitext p).2 = p := by
  have parts := List.takeWhile_append_dropWhile (p := (· ≠ '.')) (l := p.reverse)
  unfold splitext
  dsimp only
  cases rest : p.reverse.dropWhile (· ≠ '.') with
  | nil => exact List.append_nil p
  | cons dot before =>
      dsimp only
      split
      · exact List.append_nil p
      · split
        · rw [rest] at parts
          have turned := congrArg List.reverse parts
          rw [List.reverse_append, List.reverse_cons, List.reverse_reverse, List.append_assoc,
            List.singleton_append] at turned
          exact turned
        · exact List.append_nil p

theorem shorten_subset (filename : Str) : shorten filename ⊆ filename := by
  unfold shorten
  split
  · have whole := splitext_append filename
    intro c member
    rw [← whole]
    dsimp only at member
    rcases List.mem_append.mp member with stem | ext
    · refine List.mem_append_left _ ?_
      unfold sliceTo at stem
      split at stem
      · exact List.mem_of_mem_take stem
      · exact List.mem_of_mem_take stem
    · exact List.mem_append_right _ ext
  · exact List.Subset.refl _

theorem shorten_length {filename : Str} (long : filename.length > 255) :
    255 ≤ (shorten filename).length := by
  have whole := congrArg List.length (splitext_append filename)
  rw [List.length_append] at whole
  rw [shorten, if_pos long]
  dsimp only
  rw [List.length_append, sliceTo]
  split
  · omega
  · rw [List.length_take]
    omega

theorem validName_shorten (s : Sanitizer) {client : Str} (kept : s.secureFilename client ≠ []) :
    validName (shorten (s.secureFilename client)) = true := by
  have safe (c : Char) (bad : isFileNameChar c = false) :
      c ∉ shorten (s.secureFilename client) := by
    intro member
    have good := s.safe client c (shorten_subset _ member)
    rw [bad] at good
    cases good
  have other : shorten (s.secureFilename client) ≠ [] ∧
      shorten (s.secureFilename client) ≠ curdir ∧ shorten (s.secureFilename client) ≠ pardir := by
    by_cases long : (s.secureFilename client).length > 255
    · have length := shorten_length long
      refine ⟨?_, ?_, ?_⟩
      all_goals
        intro same
        rw [same] at length
        revert length
        decide
    · rw [shorten, if_neg long]
      exact ⟨kept, s.named client⟩
  simp [validName, isHere, other, safe '/' (by decide), safe '\x00' (by decide)]

end Names

section Saves

variable {s : Sanitizer} {t : Tree} {cwd user : Str} {file path : Option Str}

theorem uploadFile_saved {place : Loc} {message : Str} {event : AuditEvent}
    (saved : uploadFile s t cwd user file path = .saved place message event) :
    ∃ client, file = some client ∧ client ≠ [] ∧ s.secureFilename client ≠ [] ∧
      isInsideNasRoot t cwd (pathJoin nasRoot (path.getD [])) = some true ∧
      t.opened (pathJoin (pathJoin nasRoot (path.getD []))
        (shorten (s.secureFilename client))) = some place := by
  unfold uploadFile at saved
  split at saved
  next => cases saved
  next client =>
    dsimp only at saved
    split at saved
    next => cases saved
    next selected =>
      split at saved
      next => cases saved
      next kept =>
        split at saved
        next => cases saved
        next => cases saved
        next inside =>
          split at saved
          next => cases saved
          next written =>
            cases saved
            exact ⟨client, rfl, selected, kept, inside, written⟩

theorem saved_uploadFile {client : Str} {place : Loc} (selected : client ≠ [])
    (kept : s.secureFilename client ≠ [])
    (inside : isInsideNasRoot t cwd (pathJoin nasRoot (path.getD [])) = some true)
    (written : t.opened (pathJoin (pathJoin nasRoot (path.getD []))
      (shorten (s.secureFilename client))) = some place) :
    ∃ message event, uploadFile s t cwd user (some client) path = .saved place message event := by
  unfold uploadFile
  dsimp only
  rw [if_neg selected, if_neg kept, inside]
  dsimp only
  rw [written]
  exact ⟨_, _, rfl⟩

theorem pathJoin_nasRoot_ne_nil (p : Str) : pathJoin nasRoot p ≠ [] := by
  intro empty
  have absolute := isabs_pathJoin p
  rw [empty] at absolute
  cases absolute

theorem cancels_of_plain {p : Str} (plain : pardir ∉ components p) :
    t.CancelsNoLink (components (pathJoin nasRoot p)) := by
  intro i _ up
  have member := List.mem_of_getElem? up
  rw [components_pathJoin] at member
  rcases List.mem_append.mp member with front | own
  · unfold readFrom at front
    split at front
    · cases front
    · exact absurd front (by decide)
  · exact absurd own plain

end Saves

/-- An upload to a path without `..` stays in the store, unless the name in that directory
is already a link that leads out of it. -/
theorem uploads_inside_iff (s : Sanitizer) (t : Tree) (cwd user : Str) (file path : Option Str)
    (plain : pardir ∉ components (path.getD [])) :
    UploadsInside s t cwd user file path ↔
      ∀ client, file = some client → client ≠ [] → s.secureFilename client ≠ [] →
        isInsideNasRoot t cwd (pathJoin nasRoot (path.getD [])) = some true →
        ∀ place, t.openedThrough (pathJoin nasRoot (path.getD []))
          (shorten (s.secureFilename client)) = some place → InStore t place := by
  constructor
  · intro inside client given selected kept accepted place through
    have written := Tree.opened_of_through (validName_shorten s kept)
      (pathJoin_nasRoot_ne_nil (path.getD [])) through
    rcases saved_uploadFile selected kept accepted written with ⟨message, event, saved⟩
    rw [← given] at saved
    exact inside place message event saved
  · intro links place message event saved
    rcases uploadFile_saved saved with ⟨client, given, selected, kept, accepted, written⟩
    have opens := Tree.opens_of_opened (validName_shorten s kept)
      (pathJoin_nasRoot_ne_nil (path.getD [])) written
    cases opens with
    | named dir found same =>
        intro root rooted
        have under := isInsideNasRoot_resolved t cwd _ (isabs_pathJoin _) (cancels_of_plain plain)
          dir found accepted root rooted
        rw [same]
        exact under.trans (List.prefix_append dir _)
    | linked through => exact links client given selected kept accepted place through

section Ascii

def isTrimmed (c : Char) : Bool := c == '.' || c == '_'

/-- `s.strip('._')` -/
def trim (s : Str) : Str := (s.dropWhile isTrimmed).rdropWhile isTrimmed

theorem trim_subset (s : Str) : trim s ⊆ s := by
  intro c member
  have outer := (List.rdropWhile_prefix isTrimmed _).subset member
  exact (List.dropWhile_suffix isTrimmed).subset outer

theorem trim_ne_dotted (s text : Str) : trim s ≠ text ++ ['.'] := by
  intro same
  have shown : (s.dropWhile isTrimmed).rdropWhile isTrimmed ≠ [] := by
    intro empty
    rw [trim, empty] at same
    simp at same
  have trimmed := List.rdropWhile_last_not isTrimmed _ shown
  rw [List.getLast_congr shown (by simp) same, List.getLast_concat] at trimmed
  exact trimmed (by decide)

/-- `secure_filename` on names of ASCII characters. -/
def secureAscii (filename : Str) : Str :=
  let words := (filename.map fun c => if c = '/' then ' ' else c).splitOnP isSpace
  trim ((join ['_'] (words.filter (· ≠ []))).filter isFileNameChar)

def asciiSanitizer : Sanitizer where
  secureFilename := secureAscii
  safe := fun _ _ member => (List.mem_filter.mp (trim_subset _ member)).2
  named := fun _ => ⟨trim_ne_dotted _ [], trim_ne_dotted _ ['.']⟩

end Ascii

def linkedStore : Tree where
  entries :=
    [(["srv".toList], .dir), (["srv".toList, "nas".toList], .dir),
      (["srv".toList, "nas".toList, "docs".toList], .dir),
      (["srv".toList, "nas".toList, "report.txt".toList], .link "/etc/passwd".toList),
      (["etc".toList], .dir), (["etc".toList, "passwd".toList], .file)]
  wellFormed := by decide +kernel

theorem uploads_inside_evil :
    pardir ∉ components "docs".toList ∧
      UploadsInside asciiSanitizer linkedStore "/".toList "alice".toList
        (some "../../evil.txt".toList) (some "docs".toList) := by
  have plain : pardir ∉ components "docs".toList := by decide
  refine ⟨plain, (uploads_inside_iff asciiSanitizer linkedStore _ _ _ (some "docs".toList)
    plain).mpr ?_⟩
  intro client given _ _ _ place through
  rw [Option.some.injEq] at given
  have missing : linkedStore.openedThrough (pathJoin nasRoot "docs".toList)
      (shorten (asciiSanitizer.secureFilename "../../evil.txt".toList)) = none := by
    decide +kernel
  rw [← given, show (some "docs".toList).getD [] = "docs".toList from rfl, missing] at through
  cases through

/-- An upload named `report.txt` is written to `/etc/passwd`. -/
theorem upload_leaves_store : ¬∀ (s : Sanitizer) (t : Tree) (cwd user : Str)
    (file path : Option Str), pardir ∉ components (path.getD []) →
      UploadsInside s t cwd user file path := by
  intro all
  have inside := all asciiSanitizer linkedStore "/".toList "alice".toList
    (some "report.txt".toList) none (by decide) ["etc".toList, "passwd".toList]
    "Uploaded report.txt".toList
    ⟨"alice".toList, "File Upload".toList, "report.txt".toList,
      "Target Directory: /srv/nas/".toList⟩
    (by decide +kernel) nasRoot (by decide +kernel)
  revert inside
  decide

end SmolNas.App
