import SmolNas.Lib.Shell

/-! Lists of plain commands joined by `&&` on one physical line, as a shell reads and runs
them: a `#` at the start of a word makes the rest of the line a comment, and a command is
run when the one before it has succeeded. -/

namespace SmolNas.Lib.AndList

open Shell

abbrev Word := List Char

section Reading

/-- Characters that end a word without a blank. -/
def isOperatorChar (c : Char) : Bool := [';', '&', '|', '(', ')', '<', '>'].contains c

/-- The text of one line up to its comment; the flag says that a word may start here. -/
def uncommented : Bool → List Char → List Char
  | _, [] => []
  | start, c :: s =>
      if start = true ∧ c = '#' then [] else c :: uncommented (isBlankChar c || isOperatorChar c) s

def tokens (line : List Char) : List Word :=
  (line.splitOnP isBlankChar).filter fun token => !token.isEmpty

/-- Characters that stand for themselves wherever they are in a word. -/
def isPlainChar (c : Char) : Bool :=
  !isBlankChar c && !isOperatorChar c &&
    !([ '\'', '"', '\\', '$', Char.ofNat 96, '*', '?', '[', ']', '\x7b', '\x7d', '~',
      '!'].contains c)

def isPlainWord (word : Word) : Bool := !word.isEmpty && word.all isPlainChar

def andAnd : Word := ['&', '&']

/-- The commands of a line, if it is a list of plain commands joined by `&&`. -/
def parse (line : List Char) : Option (List (List Word)) :=
  let commands := (tokens (uncommented true line)).splitOnP (· == andAnd)
  if '\n' ∈ line then none
  else if commands = [[]] then some []
  else if commands.all fun words => !words.isEmpty && words.all isPlainWord then some commands
  else none

end Reading

section Running

variable {W : Type} (exec : W → List Word → W × Bool)

/-- Runs the commands in order up to the first one that fails; the commands that were run
are part of the result. -/
def runAll : W → List (List Word) → W × List (List Word)
  | w, [] => (w, [])
  | w, command :: rest =>
      let after := exec w command
      if after.2 then
        let later := runAll after.1 rest
        (later.1, command :: later.2)
      else (after.1, [command])

def runLine (w : W) (line : List Char) : Option (W × List (List Word)) :=
  (parse line).map (runAll exec w)

theorem runAll_succeeding (commands : List (List Word)) (ok : ∀ w c, (exec w c).2 = true) (w : W) :
    (runAll exec w commands).2 = commands := by
  induction commands generalizing w with
  | nil => rfl
  | cons command rest ih =>
      rw [runAll, if_pos (ok w command)]
      exact congrArg (command :: ·) (ih _)

end Running

section Lines

variable {start : Bool} {x y : List Char}

theorem uncommented_append (whole : uncommented start x = x) :
    uncommented start (x ++ ' ' :: y) = x ++ ' ' :: uncommented true y := by
  induction x generalizing start with
  | nil =>
      rw [List.nil_append, uncommented, if_neg]
      · rfl
      · intro hash
        exact absurd hash.2 (by decide)
  | cons c x ih =>
      rw [uncommented] at whole
      split at whole
      · cases whole
      next other =>
        rw [List.cons_append, uncommented, if_neg other, ih (List.cons.inj whole).2]
        rfl

theorem uncommented_hides (comment : uncommented start x ≠ x) :
    uncommented start (x ++ y) = uncommented start x := by
  induction x generalizing start with
  | nil => exact absurd rfl comment
  | cons c x ih =>
      rw [uncommented] at comment
      rw [List.cons_append, uncommented, uncommented]
      split
      · rfl
      next other =>
        rw [if_neg other] at comment
        rw [ih fun same => comment (congrArg (c :: ·) same)]

theorem tokens_append (x y : List Char) : tokens (x ++ ' ' :: y) = tokens x ++ tokens y := by
  rw [tokens, List.splitOnP_append_cons x y (by decide), List.filter_append]
  rfl

theorem tokens_and (x y : List Char) :
    tokens (x ++ " && ".toList ++ y) = tokens x ++ andAnd :: tokens y := by
  have regrouped : x ++ " && ".toList ++ y = x ++ ' ' :: (andAnd ++ ' ' :: y) := by
    simp [andAnd]
  rw [regrouped, tokens_append, tokens_append]
  rfl

def lineWords (line : List Char) : List Word := tokens (uncommented true line)

/-- A line of plain words, at least one, with a comment after them or not. -/
structure IsPlain (line : List Char) : Prop where
  some : lineWords line ≠ []
  plain : (lineWords line).all isPlainWord = true
  oneLine : '\n' ∉ line

def hasComment (line : List Char) : Bool := uncommented true line != line

def heard : List (List Char) → List (List Char)
  | [] => []
  | line :: lines => if hasComment line then [line] else line :: heard lines

theorem isPlainWord_ne {word : Word} (plain : isPlainWord word = true) :
    (word == andAnd) = false := by
  rw [beq_eq_false_iff_ne]
  intro same
  rw [same] at plain
  revert plain
  decide

theorem uncommented_sep (y : List Char) :
    uncommented true (andAnd ++ ' ' :: y) = andAnd ++ ' ' :: uncommented true y :=
  uncommented_append (by decide)

theorem commands_joined (lines : List (List Char)) (nonempty : lines ≠ [])
    (plain : ∀ line ∈ lines, IsPlain line) :
    (tokens (uncommented true (" && ".toList.intercalate lines))).splitOnP (· == andAnd) =
      (heard lines).map lineWords := by
  induction lines with
  | nil => exact absurd rfl nonempty
  | cons line lines ih =>
      have words := List.all_eq_true.mp (plain line List.mem_cons_self).plain
      have single : (lineWords line).splitOnP (· == andAnd) = [lineWords line] :=
        List.splitOnP_eq_singleton fun word member => isPlainWord_ne (words word member)
      cases lines with
      | nil =>
          have alone : heard [line] = [line] := by
            rw [heard]
            split
            · rfl
            · rfl
          rw [alone, List.intercalate_singleton]
          exact single
      | cons second rest =>
          rw [List.intercalate_cons_cons, heard]
          cases comment : hasComment line with
          | true =>
              rw [if_pos rfl, List.append_assoc, uncommented_hides (bne_iff_ne.mp comment)]
              exact single
          | false =>
              have whole : uncommented true line = line := by simpa [hasComment] using comment
              have own : tokens line = lineWords line := by rw [lineWords, whole]
              have split : line ++ " && ".toList ++ " && ".toList.intercalate (second :: rest) =
                  line ++ ' ' :: (andAnd ++ ' ' :: " && ".toList.intercalate (second :: rest)) := by
                simp [andAnd]
              have join : line ++ ' ' :: (andAnd ++ ' ' ::
                  uncommented true (" && ".toList.intercalate (second :: rest))) =
                  line ++ " && ".toList ++
                    uncommented true (" && ".toList.intercalate (second :: rest)) := by
                simp [andAnd]
              rw [if_neg (by simp), split, uncommented_append whole, uncommented_sep, join,
                tokens_and, List.splitOnP_append_cons _ _ (by decide), own, single,
                ih (by simp) fun other member => plain other (List.mem_cons_of_mem _ member)]
              rfl

theorem newline_joined (lines : List (List Char)) (oneLine : ∀ line ∈ lines, '\n' ∉ line) :
    '\n' ∉ " && ".toList.intercalate lines := by
  induction lines with
  | nil => exact List.not_mem_nil
  | cons line lines ih =>
      have first := oneLine line List.mem_cons_self
      cases lines with
      | nil =>
          rw [List.intercalate_singleton]
          exact first
      | cons second rest =>
          have later := ih fun other member => oneLine other (List.mem_cons_of_mem _ member)
          rw [List.intercalate_cons_cons, List.mem_append, List.mem_append]
          intro member
          rcases member with (own | sep) | rest
          · exact first own
          · exact absurd sep (by decide)
          · exact later rest

theorem heard_subset (lines : List (List Char)) : heard lines <+: lines := by
  induction lines with
  | nil => exact List.prefix_refl []
  | cons line lines ih =>
      rw [heard]
      split
      · exact List.prefix_append [line] lines
      · exact List.cons_prefix_cons.mpr ⟨rfl, ih⟩

theorem parse_joined (lines : List (List Char)) (plain : ∀ line ∈ lines, IsPlain line) :
    parse (" && ".toList.intercalate lines) = some ((heard lines).map lineWords) := by
  cases lines with
  | nil => rfl
  | cons line lines =>
      have commands := commands_joined (line :: lines) (by simp) plain
      have inside (other : List Char) (member : other ∈ heard (line :: lines)) : IsPlain other :=
        plain other ((heard_subset _).subset member)
      have first : (heard (line :: lines)).map lineWords ≠ [[]] := by
        rw [heard]
        intro same
        have empty : lineWords line = [] := by
          split at same
          · exact (List.cons.inj same).1
          · exact (List.cons.inj same).1
        exact (plain line List.mem_cons_self).some empty
      have each : ((heard (line :: lines)).map lineWords).all
          (fun words => !words.isEmpty && words.all isPlainWord) = true := by
        rw [List.all_map, List.all_eq_true]
        intro other member
        have own := inside other member
        simp only [Function.comp_apply, own.plain, Bool.and_true, Bool.not_eq_true',
          List.isEmpty_eq_false_iff]
        exact own.some
      have oneLine := newline_joined (line :: lines)
        fun other member => (plain other member).oneLine
      unfold parse
      dsimp only
      rw [if_neg oneLine, commands, if_neg first, if_pos each]

theorem heard_all_iff (lines : List (List Char)) :
    heard lines = lines ↔ ∀ line ∈ lines.dropLast, hasComment line = false := by
  induction lines with
  | nil => simp [heard]
  | cons line lines ih =>
      cases lines with
      | nil => simp [heard]
      | cons second rest =>
          rw [heard, List.dropLast_cons_cons]
          cases comment : hasComment line with
          | true => simp [comment]
          | false =>
              rw [if_neg (by simp), List.cons_inj_right, ih]
              simp [comment]

/-- The command of every line is run in order up to the first one that fails, whatever
the commands do, exactly when no line but the last has a comment. -/
theorem runLine_joined_iff (lines : List (List Char)) (plain : ∀ line ∈ lines, IsPlain line) :
    (∀ (W : Type) (exec : W → List Word → W × Bool) (w : W),
      runLine exec w (" && ".toList.intercalate lines) =
        some (runAll exec w (lines.map lineWords))) ↔
      ∀ line ∈ lines.dropLast, hasComment line = false := by
  rw [← heard_all_iff]
  simp only [runLine, parse_joined lines plain, Option.map_some, Option.some.injEq]
  constructor
  · intro same
    have runs := congrArg Prod.snd (same Unit (fun w _ => (w, true)) ())
    rw [runAll_succeeding _ _ (fun _ _ => rfl), runAll_succeeding _ _ (fun _ _ => rfl)] at runs
    have lengths := congrArg List.length runs
    rw [List.length_map, List.length_map] at lengths
    exact (heard_subset lines).eq_of_length lengths
  · intro all W exec w
    rw [all]

end Lines

end SmolNas.Lib.AndList
