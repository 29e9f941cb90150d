import SmolNas.App.SudoRewrite

/-! The deny filter against the programs that the script starts. -/

namespace SmolNas.App

open Py Lib

section Program

def sudoArgumentLetters : Str := "CDghpRrtTUu".toList

def sudoLongNames : List Str :=
  ["askpass", "auth-type", "background", "bell", "close-from", "chdir", "preserve-env", "edit",
    "group", "set-home", "help", "host", "login", "remove-timestamp", "reset-timestamp", "list",
    "non-interactive", "no-update", "preserve-groups", "prompt", "chroot", "role", "stdin", "shell",
    "type", "command-timeout", "other-user", "user", "version", "validate"].map String.toList

def sudoArgumentNames : List Str :=
  ["auth-type", "close-from", "chdir", "group", "host", "prompt", "chroot", "role", "type",
    "command-timeout", "other-user", "user"].map String.toList

/-- The option that a long option stands for; it may be cut short where that is unambiguous. -/
def longName (given : Str) : Option Str :=
  let name := given.takeWhile (· != '=')
  if sudoLongNames.contains name then some name
  else if (sudoLongNames.filter (startswith · name)).length = 1 then
    sudoLongNames.find? (startswith · name)
  else none

/-- Whether the argument of an option of `sudo` is the next word. -/
def takesArgument : Str → Bool
  | '-' :: '-' :: given =>
      !given.contains '=' && (longName given).any sudoArgumentNames.contains
  | '-' :: letters =>
      (letters.dropWhile fun c => !sudoArgumentLetters.contains c).length == 1
  | _ => false

def isOption (word : Str) : Bool := startswith word ['-'] && 2 ≤ word.length

/-- A variable that `sudo` sets for the command, `VAR=value`. -/
def isAssignment (word : Str) : Bool := !startswith word ['/'] && word.contains '='

/-- The options after `sudo`, and the command that follows them; the flag says that an argument
comes first. -/
def sudoArguments : Bool → List Shell.Marked → List Str × List Shell.Marked
  | _, [] => ([], [])
  | argument, word :: words =>
      if argument then sudoArguments false words
      else if Shell.wordOf word = "--".toList then ([], words)
      else if isOption (Shell.wordOf word) then
        let (options, command) := sudoArguments (takesArgument (Shell.wordOf word)) words
        (Shell.wordOf word :: options, command)
      else if isAssignment (Shell.wordOf word) then sudoArguments false words
      else ([], word :: words)

def dropEmpty (fields : List Shell.Marked) : List Shell.Marked := fields.dropWhile (·.isEmpty)

/-- The word is the first of its part, or the first after a `sudo` with its options, where the
script is split at unquoted `;`, `&` and `|`. -/
def isProgramWord {script : Str} (place : Shell.Place script) : Bool :=
  let front := (place.before.reverse.takeWhile (!Shell.isSeparator ·)).reverse
  match (Shell.fields front).filter (!·.isEmpty) with
  | [] => true
  | field :: fields => Shell.wordOf field == sudoWord &&
      (sudoArguments false (fields ++ [place.word])).2 == [place.word]

/-- The reading by parts between separators. -/
def partPrograms : Shell.Reading := fun _ place => isProgramWord place = true

end Program

section Place

variable {db : CharData}

theorem fixed_commandStart {c : Char} (start : isCommandStart c = true) : db.Fixed c := by
  simp only [isCommandStart, Bool.or_eq_true, beq_iff_eq] at start
  rcases start with ((space | rfl) | rfl) | rfl
  · exact db.fixed_of_space space
  · exact db.fixed_of_ascii (by decide) (by decide)
  · exact db.fixed_of_ascii (by decide) (by decide)
  · exact db.fixed_of_ascii (by decide) (by decide)

theorem lower_closed (db : CharData) {a : Str} (closed : Shell.Closed isCommandStart a) (y : Str) :
    ∃ front, db.lower (a ++ y) = front ++ db.lowerFrom a.reverse y ∧
      Shell.Closed isCommandStart front := by
  cases a using List.reverseRecOn with
  | nil => exact ⟨[], rfl, Shell.closed_nil⟩
  | append_singleton a c =>
      have start := closed c List.getLast?_concat
      obtain ⟨front, same⟩ := db.lower_split a c y (fixed_commandStart start)
      refine ⟨front ++ [c], ?_, Shell.closed_concat start⟩
      rw [List.append_assoc, List.singleton_append, same]
      simp

theorem lowerFrom_head {before b : Str} (fixed : ∀ c, b.head? = some c → db.Fixed c) :
    (db.lowerFrom before b).head? = b.head? := by
  cases b with
  | nil => rfl
  | cons c b => simp [CharData.lowerFrom, fixed c rfl _ _]

/-- A text of the script that runs, at the start of a command, as the filter saw it. -/
theorem rewrite_place {script a w b : Str} (split : sudoRewrite db script = a ++ (w ++ b))
    (closed : Shell.Closed isCommandStart a) (undashed : (w ++ b).head? ≠ some '-')
    (free : NoSudo w b) (small : ∀ c ∈ w, c.toNat < 128)
    (next : ∀ c, b.head? = some c → db.Fixed c) :
    ∃ front rest, db.lower script = front ++ (w.map Char.toLower ++ rest) ∧
      Shell.Closed isCommandStart front ∧ rest.head? = b.head? := by
  obtain ⟨a', s', rfl, cut, same⟩ :=
    rewritten_place (rewritten_sudoRewrite db script) split (outside_start closed undashed)
  obtain ⟨b', rfl, later⟩ := rewritten_keeps cut free
  have head := rewritten_head later
  obtain ⟨front, lower, edge⟩ := lower_closed db (sameEnd_closed same closed) (w ++ b')
  refine ⟨front, db.lowerFrom (w.reverse ++ a'.reverse) b', ?_, edge, ?_⟩
  · rw [lower, db.lowerFrom_ascii _ w b' small]
  · rw [lowerFrom_head fun c first => next c (head ▸ first), head]

theorem search_commandStart {t : Re} {front b before s : Str}
    (closed : Shell.Closed isCommandStart front) (found : t.Matches front.reverse b before s) :
    (Re.seq commandStart t).search (front ++ b) = true := by
  cases front using List.reverseRecOn with
  | nil =>
      have start : commandStart.Matches [] b [] b := Re.matches_left (Re.matches_test rfl)
      exact Re.search_of_matches [] b (Re.matches_seq start found)
  | append_singleton front c =>
      have consumed : (Re.one isCommandStart).Matches front.reverse (c :: b) (c :: front.reverse) b :=
        Re.matches_one (closed c List.getLast?_concat)
      rw [List.reverse_append] at found
      have whole := Re.matches_seq (Re.matches_right (r := .bol) consumed) found
      rw [List.append_assoc, List.singleton_append]
      exact Re.search_of_matches front (c :: b) whole

theorem matches_oneOfWords {words : List Str} {w before s : Str} (member : w ∈ words) :
    (oneOfWords words).Matches before (w ++ s) (w.reverse ++ before) s := by
  induction words with
  | nil => cases member
  | cons word words ih =>
      cases words with
      | nil =>
          rw [List.mem_singleton.mp member]
          exact Re.matches_lit word
      | cons other words =>
          rcases List.mem_cons.mp member with rfl | later
          · exact Re.matches_left (Re.matches_lit w)
          · exact Re.matches_right (ih later)

end Place

section Denied

variable {db : CharData}

/-- The programs that the assistant must never start. -/
def isDeniedProgram (word : Str) : Bool :=
  (wipeWords ++ powerWords).contains word || startswith word "mkfs.".toList

/-- The place is at the start of the script, or after white space, `;`, `&` or `|`. -/
def isOpen {script : Str} (place : Shell.Place script) : Bool :=
  (Shell.text place.before).getLast?.all isCommandStart

/-- A denied program, with its quotes removed. -/
def namesDenied {script : Str} (place : Shell.Place script) : Bool :=
  isDeniedProgram (Shell.wordOf place.word)

/-- The spelling of a denied program that the filter finds: without quotes, and with a blank
after a power word. -/
def showsDenied {script : Str} (place : Shell.Place script) : Bool :=
  isOpen place && isDeniedProgram (Shell.text place.word) &&
    (!powerWords.contains (Shell.text place.word) || place.after.head?.any Shell.isBlank)

theorem closed_of_open {script : Str} {place : Shell.Place script} (open' : isOpen place = true) :
    Shell.Closed isCommandStart (Shell.text place.before) := by
  intro c last
  rw [isOpen, last] at open'
  exact open'

theorem blankChar_space {c : Char} (blank : Shell.isBlankChar c = true) : isSpace c = true := by
  simp only [Shell.isBlankChar, Bool.or_eq_true, beq_iff_eq] at blank
  rcases blank with (rfl | rfl) | rfl <;> decide

theorem marked_blank {c : Char × Bool} (blank : Shell.isBlank c = true) :
    Shell.isBlankChar c.1 = true :=
  (Bool.and_eq_true_iff.mp blank).2

theorem text_blanks {blanks : Shell.Marked} (all : ∀ c ∈ blanks, Shell.isBlank c = true) :
    ∀ c ∈ Shell.text blanks, Shell.isBlankChar c = true := by
  intro c member
  obtain ⟨d, source, rfl⟩ := List.mem_map.mp member
  exact marked_blank (all d source)

theorem place_text {script : Str} (place : Shell.Place script) :
    script = Shell.text place.before ++ (Shell.text place.word ++ Shell.text place.after) := by
  have whole := place.text_split
  rw [place.rest_eq, Shell.text_append] at whole
  exact whole

theorem word_plain : ∀ w ∈ wipeWords ++ powerWords,
    ' ' ∉ w ∧ ¬ sudoWord <:+ w ∧ w.map Char.toLower = w ∧ w.all (·.toNat < 128) = true ∧
      w.head?.any (· != '-') = true ∧ w.getLast?.any Char.isAlphanum = true := by
  decide

theorem head_wordChar {w before : Str} (known : w ∈ wipeWords ++ powerWords) :
    (w.reverse ++ before).head?.any db.isWord = true := by
  obtain ⟨-, -, -, small, -, alnum⟩ := word_plain w known
  obtain ⟨c, last, alnum⟩ := (Option.any_eq_true _ _).mp alnum
  have ascii := List.all_iff_forall_prop.mp small c (List.mem_of_getLast? last)
  have first : (w.reverse ++ before).head? = some c := by
    rw [List.head?_append, List.head?_reverse, last]
    rfl
  rw [first, Option.any_some, CharData.isWord, db.isAlnum_ascii c ascii, alnum]
  rfl

/-- What may stand after a word that the filter finds. -/
def isEdge (c : Char) : Bool := isCommandStart c || c == '.' || Shell.isMetaChar c

theorem edge_cases {c : Char} (edge : isEdge c = true) :
    isSpace c = true ∨ c ∈ [';', '&', '|', '.', '(', ')', '<', '>', Char.ofNat 96] := by
  simp only [isEdge, Bool.or_eq_true, beq_iff_eq] at edge
  rcases edge with (start | rfl) | meta'
  · simp only [isCommandStart, Bool.or_eq_true, beq_iff_eq] at start
    rcases start with ((space | rfl) | rfl) | rfl
    · exact .inl space
    all_goals exact .inr (by decide)
  · exact .inr (by decide)
  · rw [Shell.isMetaChar, Bool.or_eq_true, List.contains_iff_mem] at meta'
    rcases meta' with blank | other
    · exact .inl (blankChar_space blank)
    · refine .inr ?_
      revert other
      simp only [List.mem_cons, List.not_mem_nil, or_false]
      rintro (rfl | rfl | rfl | rfl | rfl | rfl | rfl | rfl) <;> simp

theorem fixed_edge {c : Char} (edge : isEdge c = true) : db.Fixed c := by
  rcases edge_cases edge with space | other
  · exact db.fixed_of_space space
  · have table : ∀ c ∈ [';', '&', '|', '.', '(', ')', '<', '>', Char.ofNat 96],
        c.toNat < 128 ∧ ¬(65 ≤ c.toNat ∧ c.toNat ≤ 90) := List.all_iff_forall_prop.mp (by decide)
    exact db.fixed_of_ascii (table c other).1 (table c other).2

theorem edge_notWord {c : Char} (edge : isEdge c = true) : db.isWord c = false := by
  rcases edge_cases edge with space | other
  · exact db.isWord_space space
  · have table : ∀ c ∈ [';', '&', '|', '.', '(', ')', '<', '>', Char.ofNat 96],
        c.toNat < 128 ∧ (c.isAlphanum || c == '_') = false :=
      List.all_iff_forall_prop.mp (by decide)
    rw [CharData.isWord, db.isAlnum_ascii c (table c other).1, (table c other).2]

theorem head_notWord {b : Str} (next : ∀ c, b.head? = some c → isEdge c = true) :
    b.head?.any db.isWord = false := by
  rw [Option.any_eq_false]
  intro c first
  simp [edge_notWord (next c first)]

theorem next_other {b : Str} (next : b.head?.any db.isWord = false) :
    ∀ c ∈ ['u', 'd', 'o'], b.head? ≠ some c := by
  intro c member first
  have letter : ∀ c ∈ ['u', 'd', 'o'], c.toNat < 128 ∧ c.isAlphanum = true :=
    List.all_iff_forall_prop.mp (by decide)
  rw [first, Option.any_some, CharData.isWord, db.isAlnum_ascii c (letter c member).1,
    (letter c member).2] at next
  cases next

theorem word_noSudo {w b : Str} (known : w ∈ wipeWords ++ powerWords)
    (next : b.head?.any db.isWord = false) : NoSudo w b := by
  obtain ⟨blankless, unlike, -⟩ := word_plain w known
  exact noSudo_word blankless (next_other next) (.inl unlike)

theorem word_undashed {w : Str} (known : w ∈ wipeWords ++ powerWords) (b : Str) :
    (w ++ b).head? ≠ some '-' := by
  obtain ⟨-, -, -, -, undashed, -⟩ := word_plain w known
  obtain ⟨c, first, other⟩ := (Option.any_eq_true _ _).mp undashed
  rw [List.head?_append, first, Option.some_or]
  intro dash
  rw [Option.some.inj dash] at other
  cases other

theorem word_seen {script a w b : Str} (known : w ∈ wipeWords ++ powerWords)
    (split : sudoRewrite db script = a ++ (w ++ b)) (closed : Shell.Closed isCommandStart a)
    (next : ∀ c, b.head? = some c → isEdge c = true) :
    ∃ front rest, db.lower script = front ++ (w ++ rest) ∧
      Shell.Closed isCommandStart front ∧ rest.head? = b.head? := by
  obtain ⟨-, -, lower, small, -⟩ := word_plain w known
  have other : b.head?.any db.isWord = false := head_notWord next
  obtain ⟨front, rest, text, edge, head⟩ := rewrite_place split closed (word_undashed known b)
    (word_noSudo known other) (List.all_iff_forall_prop.mp small)
    fun c first => fixed_edge (next c first)
  rw [lower] at text
  exact ⟨front, rest, text, edge, head⟩

theorem wipe_found {script a w b : Str} (known : w ∈ wipeWords)
    (split : sudoRewrite db script = a ++ (w ++ b)) (closed : Shell.Closed isCommandStart a)
    (next : ∀ c, b.head? = some c → isEdge c = true) :
    (wipeRe db).search (db.lower script) = true := by
  have inList : w ∈ wipeWords ++ powerWords := List.mem_append_left _ known
  obtain ⟨front, rest, text, edge, head⟩ := word_seen inList split closed next
  have edgeMatch : (Re.boundary db).Matches (w.reverse ++ front.reverse) rest
      (w.reverse ++ front.reverse) rest := by
    apply Re.matches_test
    rw [head_wordChar inList, head, head_notWord next]
    rfl
  rw [text]
  exact search_commandStart edge (Re.matches_seq (matches_oneOfWords known) edgeMatch)

theorem power_found {script a w b : Str} (known : w ∈ powerWords)
    (split : sudoRewrite db script = a ++ (w ++ b)) (closed : Shell.Closed isCommandStart a)
    (next : ∀ c, b.head? = some c → isEdge c = true)
    (spaced : b.head?.any isSpace = true) : powerRe.search (db.lower script) = true := by
  obtain ⟨front, rest, text, edge, head⟩ :=
    word_seen (List.mem_append_right _ known) split closed next
  obtain ⟨c, first, space⟩ := (Option.any_eq_true _ _).mp spaced
  rw [first] at head
  obtain ⟨tail, rfl⟩ := List.head?_eq_some_iff.mp head
  rw [text]
  exact search_commandStart edge
    (Re.matches_seq (matches_oneOfWords known) (Re.matches_one space))

theorem edge_after {script : Str} (place : Shell.Place script) :
    ∀ c, (Shell.text place.after).head? = some c → isEdge c = true := by
  intro c first
  rw [Shell.text, List.head?_map, Option.map_eq_some_iff] at first
  obtain ⟨d, found, rfl⟩ := first
  have edge := (Bool.and_eq_true_iff.mp (place.head_after found)).2
  rw [isEdge, edge, Bool.or_true]

theorem denied_found {script : Str} (place : Shell.Place (sudoRewrite db script))
    (shown : showsDenied place = true) : isDestructive db (db.lower script) = true := by
  rw [showsDenied, Bool.and_eq_true, Bool.and_eq_true] at shown
  obtain ⟨⟨open', denied⟩, spaced⟩ := shown
  have closed := closed_of_open open'
  have split := place_text place
  have next := edge_after place
  rw [isDestructive]
  simp only [isDeniedProgram, Bool.or_eq_true, List.contains_iff_mem, List.mem_append] at denied
  rcases denied with (wipe | power) | dotted
  · rw [wipe_found wipe split closed next]
    simp
  · rw [List.contains_iff_mem.mpr power, Bool.not_true, Bool.false_or] at spaced
    have blank : (Shell.text place.after).head?.any isSpace = true := by
      obtain ⟨c, first, blank⟩ := (Option.any_eq_true _ _).mp spaced
      rw [Shell.text, List.head?_map, first, Option.map_some, Option.any_some]
      exact blankChar_space (marked_blank blank)
    rw [power_found power split closed next blank]
    simp
  · obtain ⟨tail, text⟩ := List.isPrefixOf_iff_prefix.mp dotted
    rw [← text, List.append_assoc] at split
    have found := wipe_found (w := "mkfs".toList) (b := '.' :: (tail ++ Shell.text place.after))
      (by decide) split closed (by
      intro c first
      cases first
      decide)
    rw [found]
    simp

end Denied

section Runs

abbrev PlaceTest := ∀ {script : Str}, Shell.Place script → Bool

/-- No script of the text that runs has a word of the kind where the reading sees a program. -/
def NeverRuns (db : CharData) (isProgram : Shell.Reading) (bad : PlaceTest) (text : Str) : Prop :=
  ∀ script, Reaches db text script →
    ∀ place : Shell.Place script, isProgram script place → bad place = false

/-- Whatever the reading, such a word reaches the shell exactly where no pattern of the filter
matches and not all words of the kind show themselves to the filter. -/
theorem neverRuns_iff (db : CharData) (isProgram : Shell.Reading) {bad shows : PlaceTest}
    (found : ∀ {script} (place : Shell.Place (sudoRewrite db script)), shows place = true →
      isDestructive db (db.lower script) = true) (text : Str) :
    NeverRuns db isProgram bad text ↔
      maxScript < (checkedScript db text).length ∨
        isDestructive db (db.lower (checkedScript db text)) = true ∨
        ∀ place : Shell.Place (sudoRewrite db (checkedScript db text)),
          isProgram _ place → bad place = true → shows place = true := by
  apply reaches_all_iff db text
    (P := fun script => ∀ place : Shell.Place script, isProgram script place → bad place = false)
    (C := fun script => ∀ place : Shell.Place script, isProgram script place → bad place = true →
      shows place = true)
  · intro script none place program denied
    rw [none place program] at denied
    cases denied
  · intro place
    exact (Shell.no_place_nil place).elim
  · intro script passed covered place program
    rw [← Bool.not_eq_true]
    intro denied
    rw [found place (covered place program denied)] at passed
    cases passed

end Runs

/-- For any reading of the script: no denied program is run exactly when the text is refused, or
every denied program is spelled without quotes, at the start or after white space, `;`, `&` or
`|`, and has a blank after it if it is a power word. -/
theorem starts_no_denied_iff (db : CharData) (isProgram : Shell.Reading) (text : Str) :
    NeverRuns db isProgram namesDenied text ↔
      maxScript < (checkedScript db text).length ∨
        isDestructive db (db.lower (checkedScript db text)) = true ∨
        ∀ place : Shell.Place (sudoRewrite db (checkedScript db text)),
          isProgram _ place → namesDenied place = true → showsDenied place = true :=
  neverRuns_iff db isProgram denied_found text

def afterSudo (word : Str) (begins : (Shell.marks .plain word).head?.any (!Shell.isMeta ·) = true) :
    Shell.Place ("sudo -n ".toList ++ word) where
  before := Shell.marks .plain "sudo -n ".toList
  rest := Shell.marks .plain word
  split := rfl
  opens := by decide
  begins := begins

theorem power_word_runs : ¬NeverRuns .ascii partPrograms namesDenied "sudo reboot".toList := by
  intro none
  have runs : Reaches .ascii "sudo reboot".toList "sudo -n reboot".toList := by
    rw [reaches_iff]
    decide +kernel
  have allowed := none _ runs (afterSudo "reboot".toList (by decide))
    (show isProgramWord _ = true by decide +kernel)
  revert allowed
  decide +kernel

end SmolNas.App
