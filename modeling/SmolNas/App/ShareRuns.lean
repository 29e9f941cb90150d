import SmolNas.App.FieldValues

/-! The sections `[global]`, `[printers]` and `[print$]` along runs of requests that
add and delete shares. -/

namespace SmolNas.App

open Py Lib

section Protected

def isProtected (name : Option Str) : Bool := name.any reservedNames.contains

def sectionAfter (current : Option Str) (text : Str) : Option Str :=
  (headerName text).or current

/-- The lines of the protected sections, headers included, each with the name of
its section. -/
def protectedScan : Option Str → List Str → List (Option Str × Str)
  | _, [] => []
  | current, text :: rest =>
      let current := sectionAfter current text
      if isProtected current && !isBlankLine text then (current, text) :: protectedScan current rest
      else protectedScan current rest

def protectedLines (conf : Str) : List (Option Str × Str) := protectedScan none (texts conf)

theorem protectedScan_append (current : Option Str) (a b : List Str) :
    protectedScan current (a ++ b) =
      protectedScan current a ++ protectedScan (a.foldl sectionAfter current) b := by
  induction a generalizing current with
  | nil => rfl
  | cons text a ih =>
      rw [List.cons_append, protectedScan, protectedScan, ih, List.foldl_cons]
      split <;> rfl

theorem protectedScan_free {current : Option Str} (free : isProtected current = false)
    {body : List Str} (plain : ∀ text ∈ body, isHeader text = false) :
    protectedScan current body = [] := by
  induction body with
  | nil => rfl
  | cons text body ih =>
      have same : sectionAfter current text = current := by
        have none : headerName text = none := by
          simpa [isHeader] using plain text (by simp)
        rw [sectionAfter, none, Option.none_or]
      rw [protectedScan, same, free, Bool.false_and, if_neg Bool.false_ne_true,
        ih fun other member => plain other (by simp [member])]

theorem protectedLines_feed (conf : Str) :
    protectedLines (conf ++ ['\n']) = protectedLines conf := by
  unfold protectedLines
  rcases texts_feed conf with same | more
  · rw [same]
  · have blank : ∀ current, protectedScan current [[]] = [] := by
      intro current
      simp [protectedScan, isBlankLine, strip, lstrip, rstrip]
    rw [more, protectedScan_append, blank, List.append_nil]

end Protected

section Delete

theorem deleteScan_sublist (shareName : Str) (skip : Bool) (lines : List Str) :
    (deleteScan shareName skip lines).Sublist lines := by
  induction lines generalizing skip with
  | nil => exact List.Sublist.refl _
  | cons line lines ih =>
      rw [deleteScan]
      split
      · exact (ih _).cons line
      · exact (ih _).cons_cons line

theorem readlines_deleteShare (shareName conf : Str) :
    readlines (deleteShareFromConf shareName conf) =
      deleteScan shareName false (readlines conf) := by
  have sub := deleteScan_sublist shareName false (readlines conf)
  have free : '\r' ∉ deleteShareFromConf shareName conf := by
    intro member
    obtain ⟨line, kept, inside⟩ := List.mem_flatten.mp member
    apply newlines_noReturn false conf
    rw [← flatten_keepends (newlines isNewline false conf)]
    exact List.mem_flatten.mpr ⟨line, sub.subset kept, inside⟩
  rw [readlines, newlines_feeds _ free, deleteShareFromConf,
    keepends_flatten ((lined_keepends _).sublist sub)]

def skippedLines (shareName : Str) : Bool → List Str → List Str
  | _, [] => []
  | skip, line :: lines =>
      if skips shareName skip line then
        line :: skippedLines shareName (skips shareName skip line) lines
      else skippedLines shareName (skips shareName skip line) lines

theorem skips_plain {shareName line : Str} {skip next : Bool} (plain : headerName line = none)
    (after : skips shareName skip line = next) : skip = next := by
  have closed : isSectionLine line = false := by
    rw [← Bool.not_eq_true]
    intro opens
    have header := isHeader_section opens
    rw [isHeader, plain] at header
    cases header
  rwa [skips, closed, if_neg Bool.false_ne_true] at after

/-- A deletion that skips no header of a protected section keeps their lines. While
the scan skips, the section it is in is not protected; what it keeps next is a header. -/
theorem protectedScan_deleteScan (shareName : Str) (skip : Bool) (current after : Option Str)
    (lines : List Str)
    (spared : ∀ line ∈ skippedLines shareName skip lines, isProtected (headerName line) = false)
    (kept : skip = false → after = current) (skipped : skip = true → isProtected current = false) :
    protectedScan after ((deleteScan shareName skip lines).map chomp) =
      protectedScan current (lines.map chomp) := by
  induction lines generalizing skip current after with
  | nil => rfl
  | cons line lines ih =>
      have head : headerName (chomp line) = headerName line := headerName_chomp line
      rw [skippedLines] at spared
      rw [deleteScan, List.map_cons]
      cases next : skips shareName skip line with
      | true =>
          rw [next, if_pos rfl] at spared
          have own := spared line (by simp)
          have free : isProtected (sectionAfter current (chomp line)) = false := by
            rw [sectionAfter, head]
            cases header : headerName line with
            | some name => rwa [header] at own
            | none => exact skipped (skips_plain header next)
          rw [if_pos rfl, protectedScan, free, Bool.false_and, if_neg Bool.false_ne_true]
          exact ih true _ after (fun l member => spared l (by simp [member])) (by simp) fun _ => free
      | false =>
          rw [next, if_neg Bool.false_ne_true] at spared
          have same : sectionAfter after (chomp line) = sectionAfter current (chomp line) := by
            rw [sectionAfter, sectionAfter, head]
            cases header : headerName line with
            | some name => rfl
            | none => exact kept (skips_plain header next)
          rw [if_neg Bool.false_ne_true, List.map_cons, protectedScan, protectedScan, same,
            ih false _ (sectionAfter current (chomp line)) spared (fun _ => rfl) (by simp)]

theorem protectedLines_deleteShare (shareName conf : Str)
    (spared : ∀ line ∈ skippedLines shareName false (readlines conf),
      isProtected (headerName line) = false) :
    protectedLines (deleteShareFromConf shareName conf) = protectedLines conf := by
  rw [protectedLines, texts, readlines_deleteShare]
  exact protectedScan_deleteScan shareName false none none (readlines conf) spared (fun _ => rfl)
    (by simp)

end Delete

section Add

theorem headerName_name (name : Str) :
    headerName ('[' :: name ++ [']']) = some (name.takeWhile (· != ']')) := by
  have header : (name ++ [']']).takeWhile (· != ']') = name.takeWhile (· != ']') := by
    rw [List.takeWhile_append]
    split
    next whole =>
      have all := (List.takeWhile_prefix (l := name) (· != ']')).eq_of_length whole
      rw [all]
      exact List.append_nil _
    next => rfl
  rw [headerName, strip_header]
  simp [header]

theorem protectedLines_addShare {name path validUsers : Str} (readOnly guestOk : Option Str)
    (conf : Str) (plainName : ∀ c ∈ name, isNewline c = false)
    (plainPath : ∀ c ∈ path, isNewline c = false) (plainUsers : ∀ c ∈ validUsers, isNewline c = false)
    (free : reservedNames.contains (name.takeWhile (· != ']')) = false) :
    protectedLines (addShareToConf name path validUsers (yesNo readOnly) (yesNo guestOk) conf) =
      protectedLines conf := by
  have body := shareBody_headers path validUsers readOnly guestOk
  rw [texts_single plainPath, texts_single plainUsers] at body
  have plain := fun text member => Bool.eq_false_iff.mpr (List.filter_eq_nil_iff.mp body text member)
  have own : ∀ c ∈ '[' :: name ++ [']'], isNewline c = false := header_plain plainName
  have header : isProtected (sectionAfter ((texts (conf ++ ['\n'])).foldl sectionAfter none)
      ('[' :: name ++ [']'])) = false := by
    rw [sectionAfter, headerName_name]
    exact free
  calc
    protectedLines (addShareToConf name path validUsers (yesNo readOnly) (yesNo guestOk) conf) =
        protectedScan none (texts (conf ++ ['\n']) ++ ('[' :: name ++ [']']) ::
          (shareBody path validUsers (yesNo readOnly) (yesNo guestOk)).flatMap texts) := by
      rw [protectedLines, texts_addShareToConf, texts_single own, List.singleton_append]
    _ = protectedLines (conf ++ ['\n']) := by
      rw [protectedScan_append, protectedScan, header, Bool.false_and, if_neg Bool.false_ne_true,
        protectedScan_free header plain, List.append_nil, protectedLines]
    _ = protectedLines conf := protectedLines_feed conf

end Add

section Runs

inductive ShareRequest where
  | add (form : ShareForm)
  | delete (name : Option Str)
  deriving DecidableEq, Repr

namespace ShareRequest

def apply (db : CharData) (env : Env) (conf : Str) : ShareRequest → Str
  | add form => (addShare db env form conf).1
  | delete name => (deleteShare env name conf).1

def oneLine : ShareRequest → Bool
  | add form =>
      (form.name.getD [] ++ form.path.getD [] ++ form.validUsers.getD []).all (!isNewline ·)
  | delete name => (name.getD []).all (!isNewline ·)

/-- A new share that is accepted does not open a protected section by its name, and
a deletion skips no header of a protected section. -/
def Spares (db : CharData) (conf : Str) : ShareRequest → Prop
  | add form =>
      (ConfRequest.addShare form).accepts db = true →
        reservedNames.contains ((form.name.getD []).takeWhile (· != ']')) = false
  | delete name =>
      name.getD [] ≠ [] → ∀ line ∈ skippedLines (name.getD []) false (readlines conf),
        isProtected (headerName line) = false

instance (db : CharData) (conf : Str) : (request : ShareRequest) →
    Decidable (request.Spares db conf)
  | add _ => inferInstanceAs (Decidable (_ → _))
  | delete _ => inferInstanceAs (Decidable (_ → _))

end ShareRequest

def runShares (db : CharData) (env : Env) (conf : Str) (requests : List ShareRequest) : Str :=
  requests.foldl (ShareRequest.apply db env) conf

/-- Every request of the run spares the protected sections of the file it meets. -/
def SparesAlong (db : CharData) (env : Env) : Str → List ShareRequest → Prop
  | _, [] => True
  | conf, request :: requests =>
      request.Spares db conf ∧ SparesAlong db env (request.apply db env conf) requests

theorem protectedLines_apply (db : CharData) (env : Env) (conf : Str) (request : ShareRequest)
    (oneLine : request.oneLine = true) (spares : request.Spares db conf) :
    protectedLines (request.apply db env conf) = protectedLines conf := by
  cases request with
  | add form =>
      cases accepted : (ConfRequest.addShare form).accepts db with
      | false =>
          rw [ShareRequest.apply, addShare_refused accepted]
      | true =>
          rw [ShareRequest.apply, addShare_accepted accepted]
          simp only [ShareRequest.oneLine, List.all_append, Bool.and_eq_true, all_plain]
            at oneLine
          obtain ⟨⟨plainName, plainPath⟩, plainUsers⟩ := oneLine
          exact protectedLines_addShare form.readOnly form.guestOk conf plainName plainPath plainUsers
            (spares accepted)
  | delete name =>
      unfold ShareRequest.apply deleteShare
      dsimp only
      split
      next => rfl
      next some => exact protectedLines_deleteShare _ conf (spares some)

theorem protected_lines_run (db : CharData) (env : Env) (conf : Str) (requests : List ShareRequest)
    (oneLine : ∀ request ∈ requests, request.oneLine = true)
    (spares : SparesAlong db env conf requests) :
    protectedLines (runShares db env conf requests) = protectedLines conf := by
  induction requests generalizing conf with
  | nil => rfl
  | cons request requests ih =>
      have later := fun other member => oneLine other (List.mem_cons_of_mem request member)
      calc
        protectedLines (runShares db env conf (request :: requests)) =
            protectedLines (runShares db env (request.apply db env conf) requests) := rfl
        _ = protectedLines (request.apply db env conf) := ih _ later spares.2
        _ = protectedLines conf :=
          protectedLines_apply db env conf request (oneLine request (by simp)) spares.1

theorem protected_lines_run_docs :
    protectedLines (runShares .ascii ⟨true, "dev".toList, "secret".toList⟩ exampleConf
        [.add (plainForm "/srv/nas/docs".toList), .delete (some "docs".toList)]) =
      protectedLines exampleConf :=
  protected_lines_run .ascii _ exampleConf _ (by decide +kernel)
    ⟨by decide +kernel, by decide +kernel, trivial⟩

/-- A deletion of the name `global` removes the section. -/
theorem delete_removes_global :
    (ShareRequest.delete (some "global".toList)).oneLine = true ∧
      protectedLines (runShares .ascii ⟨true, "dev".toList, "secret".toList⟩ exampleConf
        [.delete (some "global".toList)]) ≠ protectedLines exampleConf := by
  decide +kernel

end Runs

end SmolNas.App
