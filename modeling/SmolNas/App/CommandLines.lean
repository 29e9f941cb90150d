import SmolNas.App.ScriptReview

/-! Lines of the posted text that are commands already, and the removal of a description
before a colon. -/

namespace SmolNas.App

open Py Lib

def unnumbered (db : CharData) (raw : Str) : Str := strip ((numberingRe db).sub [] (strip raw))

def describedWords : List Str := ["sudo".toList, "systemctl".toList]

def afterColon (line : Str) : Str := lstrip ((line.dropWhile (· != ':')).drop 1)

def hasArgument : Str → Bool
  | c :: d :: _ => isSpace c && d != '\n'
  | _ => false

def startsDescribed (s : Str) : Bool :=
  describedWords.any fun word => startswith s word && hasArgument (s.drop word.length)

/-- Something stands before the first colon, and `sudo` or `systemctl` with its arguments
after it. -/
def describesCommand (line : Str) : Bool :=
  line.head?.any (· != ':') && line.contains ':' && startsDescribed (afterColon line)

/-- Each line that is a command is among what it adds to the script. -/
def CommandLinesEnter (db : CharData) (text : Str) : Prop :=
  ∀ before raw after, splitlines text = before ++ raw :: after →
    acceptsLine (unnumbered db raw) = true →
      ∃ added, unnumbered db raw ∈ added ∧ extractedCommands db text =
        (before.map (linePieces db)).flatten ++ (added ++ (after.map (linePieces db)).flatten)

section Description

theorem startsDescribed_iff (s : Str) :
    startsDescribed s = true ↔ ∃ word ∈ describedWords, ∃ c d rest,
      isSpace c = true ∧ d ≠ '\n' ∧ s = word ++ c :: d :: rest := by
  constructor
  · intro starts
    rcases List.any_eq_true.mp starts with ⟨word, known, holds⟩
    rw [Bool.and_eq_true] at holds
    rcases List.isPrefixOf_iff_prefix.mp holds.1 with ⟨tail, whole⟩
    have argument := holds.2
    rw [← whole, List.drop_left] at argument
    unfold hasArgument at argument
    split at argument
    next c d rest =>
      rw [Bool.and_eq_true, bne_iff_ne] at argument
      exact ⟨word, known, c, d, rest, argument.1, argument.2, whole.symm⟩
    next => cases argument
  · intro given
    rcases given with ⟨word, known, c, d, rest, space, more, same⟩
    refine List.any_eq_true.mpr ⟨word, known, ?_⟩
    rw [Bool.and_eq_true]
    constructor
    · exact List.isPrefixOf_iff_prefix.mpr ⟨_, same.symm⟩
    · rw [same, List.drop_left, hasArgument, space, Bool.true_and, bne_iff_ne]
      exact more

/-- What the two alternatives of the pattern have in common. -/
def wordRe (word : Str) : Re := .seq (.lit word) (.seq .space (.plus .dot))

theorem wordRe_run_iff (word before s : Str) :
    (wordRe word).run before s ≠ [] ↔ ∃ c d rest,
      isSpace c = true ∧ d ≠ '\n' ∧ s = word ++ c :: d :: rest := by
  constructor
  · intro found
    rcases List.exists_mem_of_ne_nil _ found with ⟨m, member⟩
    rcases Re.run_text member with ⟨w, text, -, matched⟩
    rcases Re.text_seq matched with ⟨v, u, parts, first, rest⟩
    rcases Re.text_seq rest with ⟨x, y, parts', second, third⟩
    rcases text_space second with ⟨c, blank, space⟩
    rcases Re.text_seq third with ⟨z, t, parts'', fourth, -⟩
    rcases Re.text_one fourth with ⟨d, only, other⟩
    refine ⟨c, d, t ++ m.2, space, by simpa using other, ?_⟩
    rw [text, parts, parts', parts'', Re.text_lit first, blank, only]
    simp
  · intro given
    rcases given with ⟨c, d, rest, space, more, same⟩
    rw [same]
    have dot : Re.dot.Matches (c :: (word.reverse ++ before)) (d :: rest)
        (d :: c :: (word.reverse ++ before)) rest :=
      Re.matches_one (by simpa using more)
    exact List.ne_nil_of_mem (Re.matches_seq (Re.matches_lit word)
      (Re.matches_seq (Re.matches_one space) (Re.matches_seq dot Re.matches_star_nil)))

theorem describedRe_run_iff (before s : Str) :
    describedRe.run before s ≠ [] ↔ startsDescribed s = true := by
  have either : describedRe.run before s =
      (wordRe "sudo".toList).run before s ++ (wordRe "systemctl".toList).run before s := rfl
  rw [either, ne_eq, List.append_eq_nil_iff, not_and_or, ← ne_eq, ← ne_eq, wordRe_run_iff,
    wordRe_run_iff, startsDescribed_iff]
  simp [describedWords]

/-- A line, taken apart at a description. -/
def Described (line x blanks rest : Str) : Prop :=
  line = x ++ ':' :: (blanks ++ rest) ∧ x ≠ [] ∧ (∀ c ∈ x, (c != ':') = true) ∧
    ∀ c ∈ blanks, isSpace c = true

theorem descriptionRe_run {line : Str} {m : Str × Str} (found : m ∈ descriptionRe.run [] line) :
    ∃ x blanks, Described line x blanks m.2 := by
  rcases Re.run_text found with ⟨w, text, -, matched⟩
  rcases Re.text_seq matched with ⟨start, rest, parts, first, matched⟩
  rcases Re.text_seq matched with ⟨x, rest', parts', second, matched⟩
  rcases Re.text_seq matched with ⟨colon, blanks, parts'', third, fourth⟩
  have nothing : start = [] := (Re.text_test first).1
  have one : colon = [':'] := Re.text_lit third
  have inside : (Re.plus (.one (· != ':'))).Within fun c => (c != ':') = true :=
    ⟨fun _ other => other, fun _ other => other⟩
  have spaces : (Re.star Re.space).Within fun c => isSpace c = true := fun _ space => space
  refine ⟨x, blanks, ?_, ?_, Re.text_within inside second, Re.text_within spaces fourth⟩
  · rw [text, parts, parts', parts'', nothing, one]
    simp
  · intro empty
    have long := Re.text_minLength second
    rw [empty] at long
    exact absurd long (by decide)

theorem descriptionRe_found {line x blanks rest : Str} (described : Described line x blanks rest) :
    descriptionRe.Matches [] line (blanks.reverse ++ ':' :: x.reverse) rest := by
  rcases described with ⟨whole, some, colonless, spaces⟩
  have front : (Re.plus (.one (· != ':'))).Matches [] (x ++ ([':'] ++ (blanks ++ rest)))
      (x.reverse ++ []) ([':'] ++ (blanks ++ rest)) := Re.matches_plus_one x colonless some
  have blank : (Re.star Re.space).Matches ([':'].reverse ++ (x.reverse ++ [])) (blanks ++ rest)
      (blanks.reverse ++ ([':'].reverse ++ (x.reverse ++ []))) rest :=
    Re.matches_star_one blanks spaces
  have back := Re.matches_seq (Re.matches_lit [':']) blank
  have start : Re.bol.Matches [] (x ++ ([':'] ++ (blanks ++ rest))) []
      (x ++ ([':'] ++ (blanks ++ rest))) := Re.matches_test rfl
  have all : descriptionRe.Matches [] (x ++ ([':'] ++ (blanks ++ rest)))
      (blanks.reverse ++ ([':'].reverse ++ (x.reverse ++ []))) rest :=
    Re.matches_seq start (Re.matches_seq front back)
  rw [whole]
  simpa using all

theorem describesCommand_iff (line : Str) :
    describesCommand line = true ↔
      ∃ x blanks rest, Described line x blanks rest ∧ startsDescribed rest = true := by
  constructor
  · intro describes
    simp only [describesCommand, Bool.and_eq_true] at describes
    rcases describes with ⟨⟨head, colon⟩, starts⟩
    have found : ∃ tail, line.dropWhile (· != ':') = ':' :: tail := by
      cases rest : line.dropWhile (· != ':') with
      | nil =>
          have none := List.dropWhile_eq_nil_iff.mp rest ':' (List.contains_iff_mem.mp colon)
          cases none
      | cons c tail =>
          have stop := List.head?_dropWhile_not (· != ':') line
          rw [rest] at stop
          have same : c = ':' := by simpa using stop
          exact ⟨tail, by rw [same]⟩
    rcases found with ⟨tail, rest⟩
    refine ⟨line.takeWhile (· != ':'), tail.takeWhile isSpace, lstrip tail, ⟨?_, ?_, ?_, ?_⟩, ?_⟩
    · rw [lstrip, List.takeWhile_append_dropWhile, ← rest, List.takeWhile_append_dropWhile]
    · cases line with
      | nil => cases head
      | cons c line =>
          have first : (c != ':') = true := head
          rw [List.takeWhile_cons_of_pos (p := (· != ':')) first]
          exact List.cons_ne_nil _ _
    · intro c member
      exact List.mem_takeWhile_imp (p := (· != ':')) member
    · intro c member
      exact List.mem_takeWhile_imp member
    · rw [afterColon, rest] at starts
      exact starts
  · intro given
    rcases given with ⟨x, blanks, rest, ⟨whole, nonempty, colonless, spaces⟩, starts⟩
    have kept : lstrip rest = rest := by
      rcases (startsDescribed_iff rest).mp starts with ⟨word, known, c, d, more, -, -, same⟩
      have letter : ∀ word ∈ describedWords, word.head? = some 's' := by decide
      rcases List.head?_eq_some_iff.mp (letter word known) with ⟨tail, spelled⟩
      rw [same, spelled]
      rfl
    have after : afterColon line = rest := by
      rw [afterColon, whole, List.dropWhile_append_of_pos colonless]
      exact (lstrip_blanks spaces rest).trans kept
    have head : line.head?.any (· != ':') = true := by
      cases x with
      | nil => exact absurd rfl nonempty
      | cons c x =>
          rw [whole]
          exact colonless c List.mem_cons_self
    rw [describesCommand, head, after, starts, whole]
    simp

theorem matchGroup_none_iff (line : Str) :
    Re.matchGroup descriptionRe describedRe line = none ↔ describesCommand line = false := by
  rw [← Bool.not_eq_true, describesCommand_iff, Re.matchGroup, List.head?_eq_none_iff,
    List.flatMap_eq_nil_iff]
  constructor
  · intro none given
    rcases given with ⟨x, blanks, rest, described, starts⟩
    have nothing := none _ (descriptionRe_found described)
    rw [List.map_eq_nil_iff] at nothing
    exact (describedRe_run_iff _ rest).mpr starts nothing
  · intro none m member
    rw [List.map_eq_nil_iff]
    by_contra found
    rcases descriptionRe_run member with ⟨x, blanks, described⟩
    exact none ⟨x, blanks, m.2, described, (describedRe_run_iff m.1 m.2).mp found⟩

theorem matchGroup_shorter {line group : Str}
    (found : Re.matchGroup descriptionRe describedRe line = some group) :
    group.length < line.length := by
  rcases List.mem_flatMap.mp (List.mem_of_head? found) with ⟨m, first, inner⟩
  rcases List.mem_map.mp inner with ⟨k, -, same⟩
  rcases descriptionRe_run first with ⟨x, blanks, whole, -⟩
  rw [← same, whole]
  simp only [List.length_take, List.length_append, List.length_cons]
  omega

theorem cleanLine_kept {db : CharData} {raw : Str}
    (plain : describesCommand (unnumbered db raw) = false) :
    cleanLine db (strip raw) = unnumbered db raw := by
  have missed := (matchGroup_none_iff (unnumbered db raw)).mpr plain
  rw [unnumbered] at missed
  rw [cleanLine]
  split
  next group found =>
    rw [missed] at found
    cases found
  next => rfl

theorem cleanLine_shorter {db : CharData} {raw : Str}
    (describes : describesCommand (unnumbered db raw) = true) :
    (cleanLine db (strip raw)).length < (unnumbered db raw).length := by
  rw [cleanLine]
  split
  next group found =>
    calc
      (strip group).length ≤ group.length := strip_length group
      _ < (unnumbered db raw).length := matchGroup_shorter found
  next missed =>
    have plain := (matchGroup_none_iff (unnumbered db raw)).mp missed
    rw [plain] at describes
    cases describes

end Description

section Lines

variable {db : CharData} {raw : Str}

theorem linePieces_command (command : acceptsLine (unnumbered db raw) = true) :
    linePieces db raw = lineCommands (cleanLine db (strip raw)) := by
  rw [linePieces, if_neg]
  intro blank
  have nothing : unnumbered db raw = [] := by
    rw [unnumbered, blank]
    rfl
  rw [nothing] at command
  revert command
  decide

theorem linePieces_kept_iff (command : acceptsLine (unnumbered db raw) = true) :
    unnumbered db raw ∈ linePieces db raw ↔ describesCommand (unnumbered db raw) = false := by
  rw [linePieces_command command, lineCommands, List.mem_append]
  constructor
  · intro member
    rw [← Bool.not_eq_true]
    intro describes
    rcases member with prerequisite | own
    · split at prerequisite
      · rw [List.mem_singleton.mp prerequisite] at describes
        revert describes
        decide
      · cases prerequisite
    · split at own
      · have shorter := cleanLine_shorter describes
        rw [← List.mem_singleton.mp own] at shorter
        exact absurd shorter (Nat.lt_irrefl _)
      · cases own
  · intro plain
    rw [cleanLine_kept plain, if_pos command]
    exact .inr (List.mem_singleton_self _)

end Lines

/-- Every line that is a command enters the script as it is exactly when none of them has
`sudo` or `systemctl` with arguments after its first colon. -/
theorem command_lines_enter_iff (db : CharData) (text : Str) :
    CommandLinesEnter db text ↔ ∀ raw ∈ splitlines text,
      acceptsLine (unnumbered db raw) = true → describesCommand (unnumbered db raw) = false := by
  have around (before after : List Str) (raw : Str)
      (split : splitlines text = before ++ raw :: after) : extractedCommands db text =
        (before.map (linePieces db)).flatten ++
          (linePieces db raw ++ (after.map (linePieces db)).flatten) := by
    rw [extractedCommands_eq, split, List.map_append, List.map_cons, List.flatten_append,
      List.flatten_cons]
  constructor
  · intro enter raw member command
    rcases List.append_of_mem member with ⟨before, after, split⟩
    rcases enter before raw after split command with ⟨added, kept, whole⟩
    rw [around before after raw split] at whole
    have same := List.append_cancel_right (List.append_cancel_left whole)
    rw [← same] at kept
    exact (linePieces_kept_iff command).mp kept
  · intro plain before raw after split command
    have member : raw ∈ splitlines text := by
      rw [split]
      exact List.mem_append_right _ List.mem_cons_self
    refine ⟨linePieces db raw, ?_, around before after raw split⟩
    exact (linePieces_kept_iff command).mpr (plain raw member command)

/-- An `echo` whose argument is run in its place. -/
theorem echoed_command_runs :
    ¬CommandLinesEnter .ascii "echo note: sudo systemctl stop smbd".toList := by
  intro enter
  have lines : splitlines "echo note: sudo systemctl stop smbd".toList =
      [] ++ "echo note: sudo systemctl stop smbd".toList :: [] := by decide +kernel
  have script : extractedCommands .ascii "echo note: sudo systemctl stop smbd".toList =
      ["sudo systemctl stop smbd".toList] := by decide +kernel
  rcases enter [] _ [] lines (by decide +kernel) with ⟨added, kept, whole⟩
  rw [script] at whole
  have same : ["sudo systemctl stop smbd".toList] = added := by simpa using whole
  rw [← same] at kept
  revert kept
  decide +kernel

end SmolNas.App
