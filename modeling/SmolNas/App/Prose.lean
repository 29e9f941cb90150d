import SmolNas.App.Assistant

/-! Posted texts without a line that starts like a shell command. -/

namespace SmolNas.App

open Py Lib

section Prose

def Refused (db : CharData) (text : Str) : Prop :=
  ∀ answer, ((executeCommand db (some text)).exec answer).1 = [] ∧
    ((executeCommand db (some text)).exec answer).2.httpStatus = 400

theorem refused_iff (db : CharData) (text : Str) :
    Refused db text ↔ ∃ error, scriptOf db text = .error error := by
  constructor
  · intro refused
    cases result : scriptOf db text with
    | error error => exact ⟨error, rfl⟩
    | ok script =>
        have none := (refused fun _ => .completed 0 [] []).1
        rw [executeCommand_ok result] at none
        exact absurd none (by simp)
  · intro given answer
    rcases given with ⟨error, result⟩
    rw [executeCommand_error result]
    exact ⟨rfl, rfl⟩

theorem lineCommands_prose {lines : List Str}
    (prose : ∀ line ∈ lines, acceptsLine line = false) :
    lines.flatMap lineCommands =
      List.replicate (lines.countP testsSshd) sshdPrerequisite := by
  induction lines with
  | nil => rfl
  | cons line lines ih =>
      have tail := ih fun other member => prose other (by simp [member])
      have head := prose line (by simp)
      rw [List.flatMap_cons, tail, List.countP_cons, lineCommands, head]
      cases testsSshd line with
      | false => rfl
      | true => rfl

theorem joinCommands_cons (first second : Str) (rest : List Str) :
    joinCommands (first :: second :: rest) =
      first ++ (" && ".toList ++ joinCommands (second :: rest)) := by
  simp [joinCommands, join, List.intercalate]

def prerequisites (n : Nat) : Str := joinCommands (List.replicate n sshdPrerequisite)

theorem prerequisites_step (n : Nat) :
    prerequisites (n + 2) = sshdPrerequisite ++ (" && ".toList ++ prerequisites (n + 1)) := by
  simp only [prerequisites, List.replicate_succ, joinCommands_cons]

theorem prerequisites_length (n : Nat) : (prerequisites (n + 1)).length + 4 = 30 * (n + 1) := by
  induction n with
  | zero => rfl
  | succ n ih =>
      have unit : sshdPrerequisite.length = 26 := by decide
      have sep : " && ".toList.length = 4 := by decide
      rw [prerequisites_step, List.length_append, List.length_append, unit, sep]
      omega

theorem prerequisites_chars (n : Nat) :
    ∀ c ∈ prerequisites (n + 1), c ∈ "sudo -nmkirp/h&".toList := by
  have unit : ∀ c ∈ sshdPrerequisite, c ∈ "sudo -nmkirp/h&".toList :=
    List.all_iff_forall_prop.mp (by decide)
  have sep : ∀ c ∈ " && ".toList, c ∈ "sudo -nmkirp/h&".toList :=
    List.all_iff_forall_prop.mp (by decide)
  induction n with
  | zero =>
      have single : prerequisites 1 = sshdPrerequisite := by rfl
      rwa [single]
  | succ n ih =>
      intro c member
      rw [prerequisites_step, List.mem_append, List.mem_append] at member
      rcases member with first | second | rest
      · exact unit c first
      · exact sep c second
      · exact ih c rest

theorem prerequisites_search {r : Re}
    (unit : r.searchFrom [] sshdPrerequisite = false)
    (period : ∀ before rest,
      r.searchFrom before (sshdPrerequisite ++ (" && ".toList ++ rest)) =
        r.searchFrom ((sshdPrerequisite ++ " && ".toList).reverse ++ before) rest)
    (last : ∀ before, r.searchFrom before sshdPrerequisite = r.searchFrom [] sshdPrerequisite)
    (n : Nat) (before : Str) : r.searchFrom before (prerequisites (n + 1)) = false := by
  induction n generalizing before with
  | zero => exact (last before).trans unit
  | succ n ih => rw [prerequisites_step, period, ih]

theorem prerequisites_rm (n : Nat) : rmRe.search (prerequisites (n + 1)) = false := by
  rw [Bool.eq_false_iff]
  intro found
  have word : (Re.lit "rm".toList).search (prerequisites (n + 1)) = true :=
    Re.search_seq_left (Re.search_seq_right found)
  have absent := prerequisites_search (r := .lit "rm".toList) (by decide) (fun _ _ => by rfl)
    (fun _ => by rfl) n []
  rw [Re.search, absent] at word
  cases word

/-- A dash with two letters after it. -/
def clusterRe : Re := .seq (.lit ['-']) (.seq (.one isLower) (.one isLower))

/-- `[a-z]*(su|bash|sh)` -/
def sudoClusterRe : Re :=
  .seq (.star (.one isLower)) (oneOfWords ["su".toList, "bash".toList, "sh".toList])

theorem sudoCluster_within : sudoClusterRe.Within fun c => isLower c = true := by
  exact ⟨fun _ lower => lower, Re.within_lit (List.all_eq_true.mp (by decide)),
    Re.within_lit (List.all_eq_true.mp (by decide)), Re.within_lit (List.all_eq_true.mp (by decide))⟩

theorem sudoCluster_minLength : sudoClusterRe.minLength = 2 := by decide

theorem sudoShell_cluster {db : CharData} {s : Str} (found : (sudoShellRe db).search s = true) :
    clusterRe.search s = true := by
  obtain ⟨a, b, rfl, run⟩ :=
    (Re.searchFrom_iff [] s).mp (Re.search_seq_right (Re.search_seq_right found))
  obtain ⟨m, member⟩ := List.exists_mem_of_ne_nil _ run
  obtain ⟨dash, dashed, member⟩ := List.mem_flatMap.mp member
  obtain ⟨letters, cluster, member⟩ := List.mem_flatMap.mp member
  obtain ⟨word, shell, -⟩ := List.mem_flatMap.mp member
  have whole : word ∈ sudoClusterRe.run dash.1 dash.2 :=
    List.mem_flatMap.mpr ⟨letters, cluster, shell⟩
  obtain ⟨w, rest, -, lower⟩ := Re.run_consumes sudoClusterRe sudoCluster_within _ _ word whole
  have long := Re.run_minLength sudoClusterRe _ _ word whole
  rw [sudoCluster_minLength, rest, List.length_append] at long
  obtain ⟨c, d, w, rfl⟩ : ∃ c d v, w = c :: d :: v := by
    have two : 2 ≤ w.length := by omega
    match w, two with
    | c :: d :: v, _ => exact ⟨c, d, v, rfl⟩
  have first : (Re.one isLower).Matches dash.1 (c :: d :: (w ++ word.2)) _ _ :=
    Re.matches_one (lower c (by simp))
  have second : (Re.one isLower).Matches (c :: dash.1) (d :: (w ++ word.2)) _ _ :=
    Re.matches_one (lower d (by simp))
  have both := Re.matches_seq first second
  simp only [List.cons_append] at rest
  rw [← rest] at both
  have whole : clusterRe.Matches (a.reverse ++ []) b _ _ := Re.matches_seq dashed both
  rw [List.append_nil] at whole
  exact Re.search_of_matches a b whole

theorem prerequisites_sudoShell (db : CharData) (n : Nat) :
    (sudoShellRe db).search (prerequisites (n + 1)) = false := by
  rw [Bool.eq_false_iff]
  intro found
  have cluster := sudoShell_cluster found
  have absent := prerequisites_search (r := clusterRe) (by decide) (fun _ _ => by rfl)
    (fun _ => by rfl) n []
  rw [Re.search, absent] at cluster
  cases cluster

theorem prerequisites_pass (db : CharData) (n : Nat) :
    isDestructive db (db.lower (prerequisites (n + 1))) = false := by
  have chars := prerequisites_chars n
  have lower : db.lower (prerequisites (n + 1)) = prerequisites (n + 1) := by
    apply db.lower_fixed
    intro c member
    have range : ∀ d ∈ "sudo -nmkirp/h&".toList, d.toNat < 128 ∧ ¬(65 ≤ d.toNat ∧ d.toNat ≤ 90) :=
      List.all_iff_forall_prop.mp (by decide)
    exact db.fixed_of_ascii (range c (chars c member)).1 (range c (chars c member)).2
  have bomb : contains (prerequisites (n + 1)) [':', '(', ')', '\x7b'] = false := by
    rw [contains, decide_eq_false_iff_not]
    intro inside
    exact absurd (chars ':' (inside.subset (by simp))) (by decide)
  rw [lower, isDestructive, bomb, prerequisites_rm, prerequisites_sudoShell,
    Re.search_escapes (r := wipeRe db) (by rfl) chars,
    Re.search_escapes (r := ddRe db) (by rfl) chars,
    Re.search_escapes (r := powerRe) (by rfl) chars]
  rfl

/-- A text without an accepted line is refused unless a line of it looks like a
test of `sshd`: the prerequisites then make up the script, up to its length limit. -/
theorem prose_refused_iff (db : CharData) (text : Str)
    (prose : ∀ line ∈ commandLines db text, acceptsLine line = false) :
    Refused db text ↔
      (commandLines db text).countP testsSshd = 0 ∨
        134 ≤ (commandLines db text).countP testsSshd := by
  have commands : extractedCommands db text = _ := lineCommands_prose prose
  generalize (commandLines db text).countP testsSshd = count at commands ⊢
  rw [refused_iff]
  cases count with
  | zero =>
      refine iff_of_true ⟨nothingFound, ?_⟩ (.inl rfl)
      rw [List.replicate_zero] at commands
      rw [scriptOf, if_pos commands]
  | succ n =>
      have length := prerequisites_length n
      have script : scriptOf db text =
          if maxScript < (prerequisites (n + 1)).length then .error tooLong
          else .ok (sudoRewrite db (prerequisites (n + 1))) := by
        have checked : checkedScript db text = prerequisites (n + 1) := by
          rw [checkedScript, commands]
          rfl
        rw [scriptOf, if_neg (by simp [commands, List.replicate_succ])]
        dsimp only
        rw [checked, prerequisites_pass, if_neg Bool.false_ne_true]
      rw [script]
      have bound : maxScript < (prerequisites (n + 1)).length ↔ 134 ≤ n + 1 := by
        unfold maxScript
        omega
      constructor
      · intro given
        rcases given with ⟨error, result⟩
        by_cases long : maxScript < (prerequisites (n + 1)).length
        · exact .inr (bound.mp long)
        · rw [if_neg long] at result
          cases result
      · intro given
        rcases given with none | many
        · omega
        · exact ⟨tooLong, if_pos (bound.mpr many)⟩

theorem prose_refused_sentence :
    (∀ line ∈ commandLines .ascii "no command in here".toList, acceptsLine line = false) ∧
      Refused .ascii "no command in here".toList :=
  ⟨by decide +kernel, (prose_refused_iff _ _ (by decide +kernel)).mpr (.inl (by decide +kernel))⟩

/-- One sentence with the two words of the `sshd` test runs a command as root. -/
theorem prose_runs_command :
    (∀ line ∈ commandLines .ascii "check sshd with -t".toList, acceptsLine line = false) ∧
      ¬Refused .ascii "check sshd with -t".toList := by
  refine ⟨by decide +kernel, ?_⟩
  rw [refused_iff]
  intro given
  rcases given with ⟨error, result⟩
  have script : scriptOf .ascii "check sshd with -t".toList = .ok sshdPrerequisite := by
    decide +kernel
  rw [script] at result
  cases result

end Prose

end SmolNas.App
