import SmolNas.App.SettingsUpdate

/-! Field values that are written into `smb.conf`: what a new share and the settings
update keep of the sections of the file. -/

namespace SmolNas.App

open Py Lib

section Add

theorem sections_feed (conf : Str) :
    headers (conf ++ ['\n']) = headers conf ∧ fixedLines (conf ++ ['\n']) = fixedLines conf := by
  unfold headers fixedLines
  rcases texts_feed conf with same | more
  · rw [same]
    exact ⟨rfl, rfl⟩
  · obtain ⟨flag, split⟩ := entries_append 0 false (texts conf) [[]]
    rw [more, List.filter_append, split, List.filter_append]
    exact ⟨List.append_nil _, List.append_nil _⟩

theorem lead_not_header {lead : Str} (first : (lstrip lead).head?.any (· != '[') = true) (x : Str) :
    isHeader (lead ++ x) = false := by
  obtain ⟨c, head, other⟩ := (Option.any_eq_true _ _).mp first
  have some : lstrip lead ≠ [] := by
    intro empty
    rw [empty] at head
    cases head
  rw [← Bool.not_eq_true, isHeader_iff]
  intro given
  rcases given with ⟨rest, same, -⟩
  have start := strip_head? (lead ++ x)
  rw [same, lstrip_append some, List.head?_append, head] at start
  cases start
  exact absurd other (by decide)

theorem field_headers {lead : Str} (plain : lead.all (!isNewline ·) = true)
    (first : (lstrip lead).head?.any (· != '[') = true) (value : Str) :
    (texts (lead ++ value ++ ['\n'])).filter isHeader =
      (texts (value ++ ['\n'])).tail.filter isHeader := by
  obtain ⟨head, tail, own, whole⟩ := texts_lead (all_plain.mp plain) (value ++ ['\n']) (by simp)
  rw [List.append_assoc, whole, own, List.filter_cons, lead_not_header first,
    if_neg Bool.false_ne_true]
  rfl

def shareBody (path validUsers readOnly guestOk : Str) : List Str :=
  (shareLines [] path validUsers readOnly guestOk).drop 2

theorem texts_addShareToConf (name path validUsers readOnly guestOk conf : Str) :
    texts (addShareToConf name path validUsers readOnly guestOk conf) =
      texts (conf ++ ['\n']) ++ (texts ('[' :: name ++ [']'] ++ ['\n']) ++
        (shareBody path validUsers readOnly guestOk).flatMap texts) := by
  have terminated : AllTerminated (shareBody path validUsers readOnly guestOk) :=
    ⟨terminated_concat _, terminated_concat _, terminated_concat _, terminated_concat _,
      terminated_concat "   create mask = 0664".toList, trivial⟩
  have split : addShareToConf name path validUsers readOnly guestOk conf =
      (conf ++ ['\n']) ++ (('[' :: name ++ [']'] ++ ['\n']) ++
        (shareBody path validUsers readOnly guestOk).flatten) := by
    simp [addShareToConf, shareLines, shareBody]
  rw [split, texts_append (terminated_concat conf), texts_append (terminated_concat _),
    texts_flatten terminated]

theorem yesNo_plain (value : Option Str) : ∀ c ∈ yesNo value, isNewline c = false := by
  unfold yesNo
  split <;> exact List.all_iff_forall_prop.mp (by decide)

theorem header_plain {name : Str} (plain : ∀ c ∈ name, isNewline c = false) :
    ∀ c ∈ '[' :: name ++ [']'], isNewline c = false := by
  intro c member
  rcases List.mem_append.mp member with front | last
  · rcases List.mem_cons.mp front with rfl | inside
    · decide
    · exact plain c inside
  · rw [List.mem_singleton.mp last]
    decide

theorem shareBody_headers (path validUsers : Str) (readOnly guestOk : Option Str) :
    ((shareBody path validUsers (yesNo readOnly) (yesNo guestOk)).flatMap texts).filter isHeader =
      ((texts (path ++ ['\n'])).tail ++ (texts (validUsers ++ ['\n'])).tail).filter isHeader := by
  have body : (shareBody path validUsers (yesNo readOnly) (yesNo guestOk)).flatMap texts =
      texts ("   path = ".toList ++ path ++ ['\n']) ++
        (texts ("   valid users = ".toList ++ validUsers ++ ['\n']) ++
          (texts ("   read only = ".toList ++ yesNo readOnly ++ ['\n']) ++
            (texts ("   guest ok = ".toList ++ yesNo guestOk ++ ['\n']) ++
              (texts "   create mask = 0664\n".toList ++
                texts "   directory mask = 0775\n".toList)))) := by
    simp [shareBody, shareLines]
  have mask : (texts "   create mask = 0664\n".toList ++
      texts "   directory mask = 0775\n".toList).filter isHeader = [] := by decide
  rw [body, List.filter_append, List.filter_append, List.filter_append, List.filter_append, mask,
    field_headers (by decide) (by decide), field_headers (by decide) (by decide),
    field_headers (by decide) (by decide), field_headers (by decide) (by decide),
    texts_single (yesNo_plain readOnly), texts_single (yesNo_plain guestOk), List.filter_append]
  simp

theorem add_fixedLines {after conf header : Str} {body : List Str}
    (split : texts after = texts (conf ++ ['\n']) ++ ('[' :: header ++ [']']) :: body)
    (sameHeaders : headers (conf ++ ['\n']) = headers conf)
    (sameLines : fixedLines (conf ++ ['\n']) = fixedLines conf) :
    (fixedLines after).filter (fun e => e.block ≤ (headers conf).length) = fixedLines conf := by
  have count : (texts (conf ++ ['\n'])).countP isHeader = (headers conf).length := by
    rw [← sameHeaders, headers, List.countP_eq_length_filter]
  obtain ⟨flag, parts⟩ := entries_append 0 false (texts (conf ++ ['\n']))
    (('[' :: header ++ [']']) :: body)
  have old : (fixedLines (conf ++ ['\n'])).filter (fun e => e.block ≤ (headers conf).length) =
      fixedLines (conf ++ ['\n']) := by
    rw [List.filter_eq_self]
    intro e member
    have bounds := entries_block 0 false _ e (List.mem_of_mem_filter member)
    rw [decide_eq_true_eq]
    omega
  have new : ((entries (0 + (texts (conf ++ ['\n'])).countP isHeader) flag
      (('[' :: header ++ [']']) :: body)).filter Entry.isFixed).filter
        (fun e => e.block ≤ (headers conf).length) = [] := by
    rw [List.filter_eq_nil_iff]
    intro e member
    rw [entries, isHeader_name, if_pos rfl] at member
    have bounds := entries_block _ _ _ e (List.mem_of_mem_filter member)
    rw [decide_eq_true_eq]
    omega
  calc
    (fixedLines after).filter (fun e => e.block ≤ (headers conf).length) =
        (fixedLines (conf ++ ['\n'])).filter (fun e => e.block ≤ (headers conf).length) := by
      rw [fixedLines, split, parts, List.filter_append, List.filter_append, new, List.append_nil,
        ← fixedLines]
    _ = fixedLines (conf ++ ['\n']) := old
    _ = fixedLines conf := sameLines

theorem add_keeps_iff (name path validUsers : Str) (readOnly guestOk : Option Str) (conf : Str) :
    let after := addShareToConf name path validUsers (yesNo readOnly) (yesNo guestOk) conf
    (headers after = headers conf ++ ['[' :: name ++ [']']] ∧
        (fixedLines after).filter (fun e => e.block ≤ (headers conf).length) = fixedLines conf) ↔
      (∀ c ∈ name, isNewline c = false) ∧
        ∀ further ∈ (texts (path ++ ['\n'])).tail ++ (texts (validUsers ++ ['\n'])).tail,
          isHeader further = false := by
  intro after
  have split := texts_addShareToConf name path validUsers (yesNo readOnly) (yesNo guestOk) conf
  have body := shareBody_headers path validUsers readOnly guestOk
  obtain ⟨sameHeaders, sameLines⟩ := sections_feed conf
  by_cases plain : ∀ c ∈ name, isNewline c = false
  · have own := header_plain plain
    rw [texts_single own, List.singleton_append] at split
    have found : headers after = headers conf ++ ('[' :: name ++ [']']) ::
        ((texts (path ++ ['\n'])).tail ++
          (texts (validUsers ++ ['\n'])).tail).filter isHeader := by
      rw [headers, split, List.filter_append, ← headers, sameHeaders, List.filter_cons,
        isHeader_name, if_pos rfl, body]
    have lines : (fixedLines after).filter (fun e => e.block ≤ (headers conf).length) =
        fixedLines conf := add_fixedLines split sameHeaders sameLines
    rw [found, and_iff_left lines, and_iff_right plain, List.append_cancel_left_eq,
      List.cons_eq_cons, and_iff_right rfl, List.filter_eq_nil_iff]
    simp only [Bool.not_eq_true]
  · refine iff_of_false ?_ fun fits => plain fits.1
    intro given
    rcases given with ⟨found, -⟩
    apply plain
    have member : '[' :: name ++ [']'] ∈ texts after := by
      have inside : '[' :: name ++ [']'] ∈ headers after := by
        rw [found]
        simp
      exact List.mem_of_mem_filter inside
    intro c inside
    exact texts_plain member c (by simp [inside])

end Add

section Requests

inductive ConfRequest where
  | addShare (form : ShareForm)
  | updateSambaGlobal (form : GlobalForm)
  deriving DecidableEq, Repr

namespace ConfRequest

def accepts (db : CharData) : ConfRequest → Bool
  | addShare form =>
      form.name.getD [] != [] && form.path.getD [] != [] && form.validUsers.getD [] != [] &&
        !reservedNames.contains (db.lower (form.name.getD []))
  | updateSambaGlobal _ => true

def confAfter (db : CharData) (env : Env) (conf : Str) : ConfRequest → Str
  | addShare form => (App.addShare db env form conf).1
  | updateSambaGlobal form => (App.updateSambaGlobal env form conf).1

/-- The headers are the old ones, for a new share followed by its own, and the lines
of the old sections are the old ones, except the settings lines of `[global]`. -/
def KeepsSections (db : CharData) (env : Env) (conf : Str) (request : ConfRequest) : Prop :=
  let after := request.confAfter db env conf
  match request with
  | addShare form =>
      headers after = headers conf ++ ['[' :: form.name.getD [] ++ [']']] ∧
        (fixedLines after).filter (fun e => e.block ≤ (headers conf).length) = fixedLines conf
  | updateSambaGlobal _ => headers after = headers conf ∧ fixedLines after = fixedLines conf

/-- The name of a new share has no line break and no further line of its other
fields opens a section; the settings update may replace the lines that it replaces. -/
def fits (conf : Str) : ConfRequest → Prop
  | addShare form =>
      (∀ c ∈ form.name.getD [], isNewline c = false) ∧
        ∀ further ∈ (texts (form.path.getD [] ++ ['\n'])).tail ++
            (texts (form.validUsers.getD [] ++ ['\n'])).tail,
          isHeader further = false
  | updateSambaGlobal form => updateKeeps form.newConf false false (readlines conf) = true

end ConfRequest

theorem addShare_accepted {db : CharData} {env : Env} {form : ShareForm} {conf : Str}
    (accepted : (ConfRequest.addShare form).accepts db = true) :
    (addShare db env form conf).1 =
      addShareToConf (form.name.getD []) (form.path.getD []) (form.validUsers.getD [])
        (yesNo form.readOnly) (yesNo form.guestOk) conf := by
  simp only [ConfRequest.accepts, Bool.and_eq_true, bne_iff_ne, Bool.not_eq_true'] at accepted
  obtain ⟨⟨⟨name, path⟩, users⟩, free⟩ := accepted
  rw [addShare, if_neg (by simp [name, path, users]), if_neg (by rw [free]; simp)]

theorem addShare_refused {db : CharData} {env : Env} {form : ShareForm} {conf : Str}
    (refused : (ConfRequest.addShare form).accepts db = false) :
    (addShare db env form conf).1 = conf := by
  unfold addShare
  dsimp only
  split
  next => rfl
  next filled =>
    split
    next => rfl
    next free =>
      simp only [not_or] at filled
      simp [ConfRequest.accepts, filled] at refused
      exact absurd (List.contains_iff_mem.mpr refused) free

theorem keeps_sections_iff (db : CharData) (env : Env) (conf : Str) (request : ConfRequest)
    (accepted : request.accepts db = true) :
    request.KeepsSections db env conf ↔ request.fits conf := by
  cases request with
  | addShare form =>
      simp only [ConfRequest.KeepsSections, ConfRequest.confAfter, ConfRequest.fits,
        addShare_accepted accepted]
      exact add_keeps_iff _ _ _ _ _ conf
  | updateSambaGlobal form => exact update_keeps_iff form.newConf conf

def exampleConf : Str := "[global]\n   workgroup = HOME\n".toList

def plainForm (path : Str) : ShareForm :=
  ⟨some "docs".toList, some path, some "dev".toList, none, none⟩

theorem keeps_sections_docs :
    (ConfRequest.addShare (plainForm "/srv/nas/docs".toList)).accepts .ascii = true ∧
      (ConfRequest.addShare (plainForm "/srv/nas/docs".toList)).KeepsSections .ascii
        ⟨true, "dev".toList, "secret".toList⟩ exampleConf :=
  ⟨by decide +kernel, (keeps_sections_iff _ _ _ _ (by decide +kernel)).mpr
    ⟨List.all_iff_forall_prop.mp (by decide +kernel), by decide +kernel⟩⟩

/-- A line break in the path of a new share opens a section of its own. -/
theorem path_opens_section :
    (ConfRequest.addShare (plainForm "/srv/nas/docs\n[root]\npath = /".toList)).accepts .ascii =
        true ∧
      ¬(ConfRequest.addShare (plainForm "/srv/nas/docs\n[root]\npath = /".toList)).KeepsSections
        .ascii ⟨true, "dev".toList, "secret".toList⟩ exampleConf := by
  refine ⟨by decide +kernel, ?_⟩
  intro given
  rcases given with ⟨found, -⟩
  revert found
  decide +kernel

end Requests

end SmolNas.App
