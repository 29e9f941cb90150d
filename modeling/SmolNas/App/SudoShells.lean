import SmolNas.App.FilterKept

/-! The word `sudo` in a command and in its arguments: shells that the script starts
through it and the one spelling of them that the deny filter finds, and what the rewrite
does where it is no command. -/

namespace SmolNas.App

open Py Lib

def shellNames : List Str := ["su".toList, "bash".toList, "sh".toList]

/-- Whether `-s` or `-i` is among the options of a cluster, where the letters behind an option
with an argument are that argument, or the word stands for `--shell` or `--login`. -/
def asksForShell : Str → Bool
  | '-' :: '-' :: given =>
      (longName given).any ["shell".toList, "login".toList].contains
  | '-' :: letters =>
      (letters.takeWhile fun c => !sudoArgumentLetters.contains c).any fun c => c == 's' || c == 'i'
  | _ => false

def namesShell (word : Shell.Marked) : Bool := shellNames.contains (Shell.wordOf word)

/-- An unquoted `sudo` that starts a shell. -/
def startsSudoShell {script : Str} (place : Shell.Place script) : Bool :=
  match place.words with
  | [] => false
  | word :: arguments =>
      let (options, command) := sudoArguments false arguments
      Shell.text word == sudoWord && (options.any asksForShell || command.head?.any namesShell)

/-- A cluster of options that ends in the name of a shell. -/
def endsInShell : Str → Bool
  | '-' :: letters => letters.all isLower && shellNames.any (·.isSuffixOf letters)
  | _ => false

def gluesShell (command : Shell.Marked) : Bool :=
  match Shell.fields command with
  | [] => false
  | field :: rest =>
      Shell.text field == sudoWord &&
        (dropEmpty rest).head?.any fun word => endsInShell (Shell.text word)

/-- The place is one that the filter looks at, and its text up to the next `;`, `&` or `|` is
spelled so. -/
def showsSudoShell {script : Str} (place : Shell.Place script) : Bool :=
  isOpen place && gluesShell (place.rest.takeWhile (!Shell.isSeparator ·))

section Glued

variable {db : CharData}

theorem glued_text {command : Shell.Marked} (glued : gluesShell command = true) :
    ∃ blanks word r, Shell.text command = (sudoWord ++ (blanks ++ word)) ++ r ∧ blanks ≠ [] ∧
      (∀ c ∈ blanks, Shell.isBlankChar c = true) ∧ endsInShell word = true ∧
      ∀ c, r.head? = some c → Shell.isBlankChar c = true := by
  have joined : Shell.Joined Shell.isBlank (Shell.fields command) command :=
    Shell.joined_splitOnP command
  unfold gluesShell at glued
  generalize Shell.fields command = fields at joined glued
  split at glued
  · cases glued
  next field rest =>
    rw [Bool.and_eq_true, beq_iff_eq] at glued
    rcases glued with ⟨called, cluster⟩
    rcases (Option.any_eq_true _ _).mp cluster with ⟨word, first, ending⟩
    rcases List.head?_eq_some_iff.mp first with ⟨more, skip⟩
    rcases Shell.joined_cons joined with ⟨nothing, -⟩ | ⟨c, tail, blank, whole, later⟩
    · rw [nothing] at skip
      cases skip
    rcases Shell.joined_dropEmpty later skip with ⟨gap, after, parts, blanks, words⟩
    have spaced : ∀ d ∈ Shell.text (c :: gap), Shell.isBlankChar d = true :=
      text_blanks (List.forall_mem_cons.mpr ⟨blank, blanks⟩)
    rcases Shell.joined_cons words with ⟨-, last⟩ | ⟨d, tail, sep, last, -⟩
    · refine ⟨Shell.text (c :: gap), Shell.text word, [], ?_, by simp [Shell.text], spaced,
        ending, ?_⟩
      · rw [whole, parts, last, ← called]
        simp [Shell.text]
      · intro d first
        cases first
    · refine ⟨Shell.text (c :: gap), Shell.text word, d.1 :: Shell.text tail, ?_,
        by simp [Shell.text], spaced, ending, ?_⟩
      · rw [whole, parts, last, ← called]
        simp [Shell.text]
      · intro e first
        cases first
        exact marked_blank sep

theorem glued_matches {before blanks word b : Str} (nonempty : blanks ≠ [])
    (spaces : ∀ c ∈ blanks, isSpace c = true) (cluster : endsInShell word = true)
    (next : b.head?.any db.isWord = false) :
    (sudoShellRe db).MatchesText before (sudoWord ++ (blanks ++ word)) b := by
  unfold endsInShell at cluster
  split at cluster
  next letters =>
    rw [Bool.and_eq_true, List.any_eq_true] at cluster
    rcases cluster with ⟨lower, shell, known, suffix⟩
    rcases List.isSuffixOf_iff_suffix.mp suffix with ⟨front, whole⟩
    have lowers : ∀ c ∈ front, isLower c = true := by
      intro c member
      exact List.all_eq_true.mp lower c (by rw [← whole]; exact List.mem_append_left _ member)
    rcases shell_plain shell known with ⟨-, -, last⟩
    rcases (Option.any_eq_true _ _).mp last with ⟨c, ending, plain⟩
    simp only [Bool.and_eq_true, decide_eq_true_eq] at plain
    have edge (past : Str) : (Re.boundary db).MatchesText (shell.reverse ++ past) [] b := by
      apply Re.matches_test
      have inside : (shell.reverse ++ past).head?.any db.isWord = true := by
        rw [List.head?_append, List.head?_reverse, ending]
        simp [CharData.isWord, db.isAlnum_ascii c plain.1.2, plain.1.1]
      rw [inside, List.nil_append, next]
      rfl
    have parts : sudoWord ++ (blanks ++ '-' :: letters) =
        sudoWord ++ (blanks ++ (['-'] ++ (front ++ (shell ++ [])))) := by
      rw [← whole]
      simp
    rw [parts]
    apply Re.matchesText_seq (Re.matches_lit sudoWord)
    apply Re.matchesText_seq (Re.matches_plus_one blanks spaces nonempty)
    apply Re.matchesText_seq (Re.matches_lit ['-'])
    apply Re.matchesText_seq (Re.matches_star_one front lowers)
    exact Re.matchesText_seq (matches_oneOfWords known) (edge _)
  next => cases cluster

theorem endsInShell_chars {word : Str} (cluster : endsInShell word = true) :
    ∀ c ∈ word, c = '-' ∨ isLower c = true := by
  unfold endsInShell at cluster
  split at cluster
  next letters =>
    intro c member
    rcases List.mem_cons.mp member with same | later
    · exact .inl same
    · exact .inr (List.all_eq_true.mp (Bool.and_eq_true_iff.mp cluster).1 c later)
  next => cases cluster

theorem lower_plain {c : Char} (lower : isLower c = true) : c.toNat < 128 ∧ c.toLower = c := by
  simp only [isLower, Bool.and_eq_true, decide_eq_true_eq] at lower
  have least : 97 ≤ c.toNat := lower.1
  have most : c.toNat ≤ 122 := lower.2
  exact ⟨by omega, toLower_eq_self c (by omega)⟩

theorem edge_separator {rest : Shell.Marked} :
    ∀ c, (Shell.text (rest.dropWhile (!Shell.isSeparator ·))).head? = some c → isEdge c = true := by
  intro c first
  rw [Shell.text, List.head?_map, Option.map_eq_some_iff] at first
  obtain ⟨d, found, rfl⟩ := first
  have stops : Shell.isSeparator d = true := by
    have last := List.head?_dropWhile_not (!Shell.isSeparator ·) rest
    rw [found] at last
    simpa using last
  simp only [Shell.isSeparator, Bool.and_eq_true, Bool.or_eq_true, beq_iff_eq] at stops
  rcases stops.2 with (same | same) | same <;> rw [same] <;> decide

theorem glued_found {script : Str} (place : Shell.Place (sudoRewrite db script))
    (shown : showsSudoShell place = true) : isDestructive db (db.lower script) = true := by
  rw [showsSudoShell, Bool.and_eq_true] at shown
  obtain ⟨open', glued⟩ := shown
  obtain ⟨blanks, word, r, spelled, nonempty, spaced, cluster, blank⟩ := glued_text glued
  have split := place.text_split
  have parts := List.takeWhile_append_dropWhile (p := (!Shell.isSeparator ·)) (l := place.rest)
  rw [← parts, Shell.text_append, spelled, List.append_assoc _ r] at split
  have next : ∀ c, (r ++ Shell.text (place.rest.dropWhile (!Shell.isSeparator ·))).head? = some c →
      isEdge c = true := by
    intro c first
    rw [List.head?_append] at first
    cases found : r.head? with
    | none =>
        rw [found, Option.none_or] at first
        exact edge_separator c first
    | some d =>
        rw [found, Option.some_or] at first
        have blanks := blank d found
        rw [Option.some.inj first] at blanks
        rw [isEdge, Shell.isMetaChar, blanks]
        simp
  have spaces (c : Char) (inside : c ∈ blanks) : isSpace c = true :=
    blankChar_space (spaced c inside)
  have outside : (r ++ Shell.text (place.rest.dropWhile (!Shell.isSeparator ·))).head?.any
      db.isWord = false := head_notWord next
  have glue : (sudoShellRe db).MatchesText [] (sudoWord ++ (blanks ++ word)) _ :=
    glued_matches nonempty spaces cluster outside
  have free := (sudoShell_text glue).1
  -- every character of the place is ASCII and in lower case already
  have chars : ∀ c ∈ sudoWord ++ (blanks ++ word), c.toNat < 128 ∧ c.toLower = c := by
    intro c inside
    rcases List.mem_append.mp inside with letter | inside
    · have table : ∀ c ∈ sudoWord, c.toNat < 128 ∧ c.toLower = c :=
        List.all_iff_forall_prop.mp (by decide)
      exact table c letter
    rcases List.mem_append.mp inside with blank | inside
    · exact blankChar_small (spaced c blank)
    · rcases endsInShell_chars cluster c inside with dash | lower
      · rw [dash]
        decide
      · exact lower_plain lower
  obtain ⟨front, rest, text, -, head⟩ := rewrite_place split (closed_of_open open')
    (by simp [sudoWord]) free (fun c inside => (chars c inside).1)
    fun c first => fixed_edge (next c first)
  have same : (sudoWord ++ (blanks ++ word)).map Char.toLower = sudoWord ++ (blanks ++ word) := by
    rw [List.map_congr_left fun c inside => (chars c inside).2, List.map_id']
  have seen : (sudoShellRe db).search (db.lower script) = true := by
    rw [text, same]
    exact Re.search_of_matches front _ (glued_matches nonempty spaces cluster (head ▸ outside))
  rw [isDestructive, seen]
  simp

end Glued

/-- For any reading of the script: no shell is started through `sudo` exactly when the text is
refused, or every `sudo` that would start one has the shell's name glued to the options after
it. -/
theorem starts_no_sudo_shell_iff (db : CharData) (isProgram : Shell.Reading) (text : Str) :
    NeverRuns db isProgram startsSudoShell text ↔
      maxScript < (checkedScript db text).length ∨
        isDestructive db (db.lower (checkedScript db text)) = true ∨
        ∀ place : Shell.Place (sudoRewrite db (checkedScript db text)),
          isProgram _ place → startsSudoShell place = true → showsSudoShell place = true :=
  neverRuns_iff db isProgram glued_found text

def firstPlace (script : Str)
    (begins : (Shell.marks .plain script).head?.any (!Shell.isMeta ·) = true) :
    Shell.Place script where
  before := []
  rest := Shell.marks .plain script
  split := rfl
  opens := rfl
  begins := begins

theorem sudo_bash_runs : ¬NeverRuns .ascii partPrograms startsSudoShell "sudo bash".toList := by
  intro none
  have runs : Reaches .ascii "sudo bash".toList "sudo -n bash".toList := by
    rw [reaches_iff]
    decide +kernel
  have found := none _ runs (firstPlace _ (by decide))
    (show isProgramWord _ = true by decide +kernel)
  revert found
  decide +kernel

-- a second `sudo`, a variable and a long option cut short
example : startsSudoShell (firstPlace "sudo -n FOO=bar \"bash\"".toList (by decide)) = true ∧
    startsSudoShell (firstPlace "sudo --user=root --she".toList (by decide)) = true ∧
    startsSudoShell (afterSudo "sudo -u root sh)".toList (by decide)) = true := by
  decide +kernel

section Arguments

/-- `sudo` is not the first word of a part of the script between unquoted `;`, `&` and `|`. A
`sudo` behind a bracket, a reserved word or a line break is not seen. -/
def NoSudoCommand (script : Str) : Prop :=
  ∀ command ∈ Shell.commands script,
    ∀ field, (dropEmpty (Shell.fields command)).head? = some field → Shell.wordOf field ≠ sudoWord

instance (script : Str) : Decidable (NoSudoCommand script) :=
  inferInstanceAs (Decidable (∀ command ∈ _, ∀ field, List.head? _ = some field → _ ≠ _))

theorem sudoRewrite_eq_iff (db : CharData) (script : Str) :
    sudoRewrite db script = script ↔ OptionsGiven db script := by
  constructor
  · intro same
    have given := sudoRewrite_options db script
    rwa [same] at given
  · exact sudoRewrite_fixed

/-- Where a script without a `sudo` command is rewritten all the same. -/
theorem arguments_kept_iff (db : CharData) (script : Str) :
    (NoSudoCommand script → sudoRewrite db script = script) ↔
      ¬NoSudoCommand script ∨ OptionsGiven db script := by
  rw [sudoRewrite_eq_iff, imp_iff_not_or]

theorem searched_sudo_rewritten : ¬∀ (db : CharData) (script : Str),
    NoSudoCommand script → sudoRewrite db script = script := by
  intro all
  have same := all .ascii "grep sudo /etc/group".toList (by decide +kernel)
  revert same
  decide +kernel

end Arguments

end SmolNas.App
