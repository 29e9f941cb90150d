import SmolNas.App.SambaStatus

/-! The report of `smbstatus`, and what the text fallback makes of its tables. -/

namespace SmolNas.App

open Py Json

section Report

def isRule (line : Str) : Bool := (strip line).all (· == '-')

/-- A row of the session table: it starts with a process id and has at least four words. -/
def isSessionRow (line : Str) : Bool :=
  (strip line).head?.any Char.isDigit && decide (4 ≤ (words line).length)

def isServiceRow (line : Str) : Bool := decide (3 ≤ (words line).length)

def isTableHeader (line : Str) : Bool :=
  isSessionHeader (strip line) || isServiceHeader (strip line)

/-- The table of the locked files: its title, and its header and rows among blank and dashed
lines. None of them is a header of the other two tables. -/
structure LockedTable where
  title : Str
  lines : List Str
  titled : strip title = "Locked files:".toList
  rows : ∀ line ∈ lines, isTableHeader line = false

/-- The lines of a report. What stands before the session table is no header either. -/
structure StatusReport where
  before : List Str
  sessionHeader : Str
  sessionLines : List Str
  serviceHeader : Str
  serviceLines : List Str
  locked : Option LockedTable
  unnamed : ∀ line ∈ before, isTableHeader line = false
  sessionNamed : isSessionHeader (strip sessionHeader) = true
  sessionRows : ∀ line ∈ sessionLines, isRule line = true ∨ isSessionRow line = true
  serviceNamed : isServiceHeader (strip serviceHeader) = true
  serviceRows : ∀ line ∈ serviceLines, isRule line = true ∨ isServiceRow line = true

namespace StatusReport

variable (report : StatusReport)

def lockedLines : List Str := report.locked.elim [] fun table => table.title :: table.lines

def lines : List Str :=
  report.before ++ report.sessionHeader :: report.sessionLines ++
    report.serviceHeader :: report.serviceLines ++ report.lockedLines

/-- One session for each row of the session table and one share for each row of the service
table. -/
def status : SambaStatus Str where
  shares := (report.serviceLines.filter (!isRule ·)).map fun line => shareEntry (words line)
  sessions := (report.sessionLines.filter (!isRule ·)).map fun line => sessionEntry (words line)

end StatusReport

def passedOver (line : Str) : Bool := startswith (strip line) ['-'] || isTableHeader line

end Report

section Lines

variable {line : Str} {state : StatusState}

theorem rule_skipped (rule : isRule line = true) :
    strip line = [] ∨ startswith (strip line) ['-'] = true := by
  unfold isRule at rule
  cases text : strip line with
  | nil => exact .inl rfl
  | cons c rest =>
      rw [text, List.all_cons, Bool.and_eq_true, beq_iff_eq] at rule
      right
      rw [rule.1]
      rfl

theorem row_of_table {row : Prop} (either : isRule line = true ∨ row)
    (other : isRule line = false) : row := by
  rw [other] at either
  exact either.resolve_left Bool.false_ne_true

theorem rule_header (rule : isRule line = true) : isTableHeader line = false := by
  unfold isTableHeader isSessionHeader isServiceHeader
  rcases rule_skipped rule with empty | dashed
  · rw [empty]
    rfl
  · rcases List.isPrefixOf_iff_prefix.mp dashed with ⟨rest, text⟩
    rw [← text]
    rfl

theorem rule_words (rule : isRule line = true) : (words line).length < 3 := by
  rw [← words_strip]
  unfold isRule at rule
  cases text : strip line with
  | nil => decide
  | cons c rest =>
      rw [text] at rule
      have proper : isWordText (c :: rest) = true := by
        rw [isWordText_iff]
        refine ⟨List.cons_ne_nil _ _, fun d member => ?_⟩
        have dash := List.all_eq_true.mp rule d member
        rw [beq_iff_eq.mp dash]
        rfl
      rw [words_single proper, List.length_singleton]
      decide

theorem startswith_other {c d : Char} (other : d ≠ c) (affix s : Str) :
    startswith (c :: s) (d :: affix) = false := by
  rw [startswith, List.isPrefixOf, beq_eq_false_iff_ne.mpr other, Bool.false_and]

theorem sessionRow_plain (row : isSessionRow line = true) :
    isTableHeader line = false ∧ startswith (strip line) ['-'] = false ∧ isRule line = false ∧
      4 ≤ (words line).length := by
  rw [isSessionRow, Bool.and_eq_true, decide_eq_true_eq] at row
  rcases row with ⟨first, many⟩
  have headers : isTableHeader line = false ∧ startswith (strip line) ['-'] = false := by
    unfold isTableHeader isSessionHeader isServiceHeader
    cases text : strip line with
    | nil =>
        rw [text] at first
        cases first
    | cons c rest =>
        rw [text, List.head?_cons, Option.any_some] at first
        have other {d : Char} (letter : d.isDigit = false) : d ≠ c := by
          rintro rfl
          rw [first] at letter
          cases letter
        have pid : startswith (c :: rest) "PID".toList = false :=
          startswith_other (other (by decide)) _ _
        have service : startswith (c :: rest) "Service".toList = false :=
          startswith_other (other (by decide)) _ _
        rw [pid, service]
        exact ⟨rfl, startswith_other (other (by decide)) _ _⟩
  refine ⟨headers.1, headers.2, ?_, many⟩
  rw [← Bool.not_eq_true]
  intro rule
  have few := rule_words rule
  omega

theorem statusStep_skipped (skipped : strip line = [] ∨ startswith (strip line) ['-'] = true) :
    statusStep state line = state := by
  rw [statusStep]
  exact if_pos skipped

theorem statusStep_plain (plain : isTableHeader line = false)
    (dashless : startswith (strip line) ['-'] = false) :
    statusStep state line = recordRow state (words line) := by
  rw [isTableHeader, Bool.or_eq_false_iff] at plain
  by_cases empty : strip line = []
  · have none : words line = [] := by
      rw [← words_strip, empty]
      rfl
    rw [statusStep_skipped (.inl empty), none, recordRow]
    split
    · rfl
    · rfl
    · rfl
  · rw [statusStep, plain.1, plain.2, dashless, words_strip]
    simp only [empty, Bool.false_eq_true, or_self, if_false]

def isRecorded (line : Str) : Bool :=
  !startswith (strip line) ['-'] && decide (3 ≤ (words line).length)

theorem foldl_shares {lines : List Str} (plain : ∀ line ∈ lines, isTableHeader line = false)
    (status : SambaStatus Str) :
    lines.foldl statusStep (some .shares, status) =
      (some .shares, { status with shares := status.shares ++
        (lines.filter isRecorded).map fun line => shareEntry (words line) }) := by
  induction lines generalizing status with
  | nil => rw [List.filter_nil, List.map_nil, List.append_nil]; rfl
  | cons line lines ih =>
      have own := plain line List.mem_cons_self
      have later := ih fun other member => plain other (List.mem_cons_of_mem _ member)
      rw [List.foldl_cons, List.filter_cons, isRecorded]
      cases dashed : startswith (strip line) ['-'] with
      | true =>
          rw [statusStep_skipped (.inr dashed)]
          exact later status
      | false =>
          rw [statusStep_plain own dashed, recordRow]
          dsimp only
          by_cases many : 3 ≤ (words line).length
          · rw [if_pos many, later, decide_eq_true many]
            dsimp only
            rw [List.append_assoc]
            rfl
          · rw [if_neg many, later, decide_eq_false many]
            rfl

theorem foldl_sessions {lines : List Str}
    (rows : ∀ line ∈ lines, isRule line = true ∨ isSessionRow line = true)
    (status : SambaStatus Str) :
    lines.foldl statusStep (some .sessions, status) =
      (some .sessions, { status with sessions := status.sessions ++
        (lines.filter (!isRule ·)).map fun line => sessionEntry (words line) }) := by
  induction lines generalizing status with
  | nil => rw [List.filter_nil, List.map_nil, List.append_nil]; rfl
  | cons line lines ih =>
      have later := ih fun other member => rows other (List.mem_cons_of_mem _ member)
      rw [List.foldl_cons, List.filter_cons]
      rcases rows line List.mem_cons_self with rule | row
      · rw [statusStep_skipped (rule_skipped rule), rule]
        exact later status
      · rcases sessionRow_plain row with ⟨plain, dashless, other, many⟩
        rw [statusStep_plain plain dashless, recordRow, other]
        dsimp only
        rw [if_pos many, later]
        dsimp only
        rw [List.append_assoc]
        rfl

theorem foldl_before {lines : List Str} (plain : ∀ line ∈ lines, isTableHeader line = false)
    (status : SambaStatus Str) : lines.foldl statusStep (none, status) = (none, status) := by
  induction lines with
  | nil => rfl
  | cons line lines ih =>
      have later := ih fun other member => plain other (List.mem_cons_of_mem _ member)
      rw [List.foldl_cons]
      cases dashed : startswith (strip line) ['-'] with
      | true => rw [statusStep_skipped (.inr dashed), later]
      | false =>
          rw [statusStep_plain (plain line List.mem_cons_self) dashed]
          exact later

theorem opens_dashless {d : Char} {affix : Str}
    (starts : startswith (strip line) (d :: affix) = true) (other : d ≠ '-') :
    ¬(strip line = [] ∨ startswith (strip line) ['-'] = true) := by
  rcases List.isPrefixOf_iff_prefix.mp starts with ⟨rest, text⟩
  rw [← text, List.cons_append, startswith_other other.symm]
  simp

theorem statusStep_sessionHeader (named : isSessionHeader (strip line) = true) :
    statusStep state line = (some .sessions, state.2) := by
  have starts := (Bool.and_eq_true _ _ ▸ named).1
  rw [statusStep, if_neg (opens_dashless starts (by decide)), if_pos named]

theorem statusStep_serviceHeader (named : isServiceHeader (strip line) = true) :
    statusStep state line = (some .shares, state.2) := by
  have starts := (Bool.and_eq_true _ _ ▸ named).1
  have other : ¬isSessionHeader (strip line) = true := by
    rcases List.isPrefixOf_iff_prefix.mp starts with ⟨rest, text⟩
    rw [← text]
    exact Bool.false_ne_true
  rw [statusStep, if_neg (opens_dashless starts (by decide)), if_neg other, if_pos named]

end Lines

section Rows

theorem passedOver_congr {a b : Str} (same : words a = words b) : passedOver a = passedOver b := by
  have starts {affix : Str} (proper : isWordText affix = true) :
      startswith (strip a) affix = startswith (strip b) affix := by
    rw [Bool.eq_iff_iff, startswith, startswith, List.isPrefixOf_iff_prefix,
      List.isPrefixOf_iff_prefix, prefix_words proper, prefix_words proper, same]
  have has {part : Str} (proper : isWordText part = true) :
      contains (strip a) part = contains (strip b) part := by
    rw [contains, contains, decide_eq_decide, infix_words proper, infix_words proper, words_strip,
      words_strip, same]
  simp only [passedOver, isTableHeader, isSessionHeader, isServiceHeader]
  rw [starts (by decide : isWordText ['-'] = true),
    starts (by decide : isWordText "PID".toList = true),
    starts (by decide : isWordText "Service".toList = true),
    has (by decide : isWordText "Username".toList = true),
    has (by decide : isWordText "pid".toList = true)]

theorem shareEntry_inj {a b : Str} (manyA : 3 ≤ (words a).length) (manyB : 3 ≤ (words b).length)
    (same : shareEntry (words a) = shareEntry (words b)) : words a = words b := by
  have parts (s : Str) (many : 3 ≤ (words s).length) :
      words s = (shareEntry (words s)).service :: (shareEntry (words s)).pid ::
        (shareEntry (words s)).machine :: words (shareEntry (words s)).connectedAt := by
    have tail : words (join [' '] ((words s).drop 3)) = (words s).drop 3 :=
      words_join fun part member => mem_words s part (List.mem_of_mem_drop member)
    rw [shareEntry]
    dsimp only
    rw [tail]
    generalize words s = ws at many
    rcases ws with _ | ⟨service, _ | ⟨pid, _ | ⟨machine, rest⟩⟩⟩
    · exact absurd many (by decide)
    · exact absurd many (by simp)
    · exact absurd many (by simp)
    · rfl
  rw [parts a manyA, parts b manyB, same]

theorem statusStep_shares (state : StatusState) (line : Str) :
    ∀ share ∈ (statusStep state line).2.shares,
      share ∈ state.2.shares ∨ passedOver line = false ∧ 3 ≤ (words line).length ∧
        share = shareEntry (words line) := by
  intro share member
  cases dashed : startswith (strip line) ['-'] with
  | true =>
      rw [statusStep_skipped (.inr dashed)] at member
      exact .inl member
  | false =>
      cases session : isSessionHeader (strip line) with
      | true =>
          rw [statusStep_sessionHeader session] at member
          exact .inl member
      | false =>
          cases service : isServiceHeader (strip line) with
          | true =>
              rw [statusStep_serviceHeader service] at member
              exact .inl member
          | false =>
              have plain : isTableHeader line = false := by
                rw [isTableHeader, session, service]
                rfl
              have kept : passedOver line = false := by
                rw [passedOver, dashed, plain]
                rfl
              rw [statusStep_plain plain dashed, recordRow] at member
              split at member
              · split at member
                · exact .inl member
                · exact .inl member
              · split at member
                next many =>
                  rcases List.mem_append.mp member with old | new
                  · exact .inl old
                  · exact .inr ⟨kept, many, List.mem_singleton.mp new⟩
                next => exact .inl member
              · exact .inl member

theorem shares_recorded (lines : List Str) (state : StatusState) :
    ∀ share ∈ (lines.foldl statusStep state).2.shares,
      share ∈ state.2.shares ∨ ∃ line ∈ lines, passedOver line = false ∧
        3 ≤ (words line).length ∧ share = shareEntry (words line) := by
  induction lines generalizing state with
  | nil =>
      intro share member
      exact .inl member
  | cons line lines ih =>
      intro share member
      rcases ih (statusStep state line) share member with earlier | ⟨other, inside, row⟩
      · rcases statusStep_shares state line share earlier with old | row
        · exact .inl old
        · exact .inr ⟨line, List.mem_cons_self, row⟩
      · exact .inr ⟨other, List.mem_cons_of_mem _ inside, row⟩

end Rows

namespace StatusReport

variable (report : StatusReport)

theorem foldl_tables :
    report.lines.foldl statusStep (none, .empty) =
      (report.serviceLines ++ report.lockedLines).foldl statusStep
        (some .shares, ⟨[], report.status.sessions⟩) := by
  have header : statusStep (none, .empty) report.sessionHeader = (some .sessions, .empty) :=
    statusStep_sessionHeader report.sessionNamed
  have service (status : SambaStatus Str) :
      statusStep (some .sessions, status) report.serviceHeader = (some .shares, status) :=
    statusStep_serviceHeader report.serviceNamed
  simp only [lines, List.append_assoc, List.cons_append, List.foldl_append, List.foldl_cons]
  rw [foldl_before report.unnamed, header, foldl_sessions report.sessionRows, service]
  rfl

theorem locked_plain : ∀ line ∈ report.lockedLines, isTableHeader line = false := by
  intro line member
  rw [lockedLines] at member
  cases locked : report.locked with
  | none =>
      rw [locked] at member
      cases member
  | some table =>
      rw [locked] at member
      rcases List.mem_cons.mp member with rfl | inside
      · rw [isTableHeader, table.titled]
        decide
      · exact table.rows line inside

def ServiceRecorded : Prop :=
  ∀ line ∈ report.serviceLines, isRule line = true ∨ passedOver line = false

def LockedIgnored : Prop := ∀ table ∈ report.locked, ∀ line ∈ table.lines, isRecorded line = false

variable {report}

theorem service_plain (recorded : report.ServiceRecorded) :
    ∀ line ∈ report.serviceLines, isTableHeader line = false ∧
      isRecorded line = !isRule line := by
  intro line member
  cases rule : isRule line with
  | true =>
      have few := rule_words rule
      have ignored : isRecorded line = false := by
        rw [isRecorded, decide_eq_false (by omega), Bool.and_false]
      exact ⟨rule_header rule, ignored⟩
  | false =>
      have kept := row_of_table (recorded line member) rule
      have row := row_of_table (report.serviceRows line member) rule
      rw [passedOver, Bool.or_eq_false_iff] at kept
      rw [isServiceRow] at row
      refine ⟨kept.2, ?_⟩
      rw [isRecorded, kept.1, row]
      rfl

theorem foldl_recorded (recorded : report.ServiceRecorded) :
    (report.lines.foldl statusStep (none, .empty)).2 =
      ⟨report.status.shares ++
          (report.lockedLines.filter isRecorded).map fun line => shareEntry (words line),
        report.status.sessions⟩ := by
  have plain : ∀ line ∈ report.serviceLines ++ report.lockedLines, isTableHeader line = false := by
    intro line member
    rcases List.mem_append.mp member with service | locked
    · exact (service_plain recorded line service).1
    · exact report.locked_plain line locked
  have rows : report.serviceLines.filter isRecorded = report.serviceLines.filter (!isRule ·) :=
    List.filter_congr fun line member => (service_plain recorded line member).2
  rw [foldl_tables, foldl_shares plain, List.filter_append, rows, List.map_append]
  rfl

theorem locked_ignored_iff :
    report.lockedLines.filter isRecorded = [] ↔ report.LockedIgnored := by
  unfold lockedLines LockedIgnored
  cases report.locked with
  | none => simp
  | some table =>
      have title : isRecorded table.title = false := by
        rw [isRecorded, ← words_strip, table.titled]
        decide
      simp [title]

end StatusReport

theorem textStatus_iff (report : StatusReport) (out : Str)
    (printed : splitlines out = report.lines) :
    textStatus out = report.status ↔ report.ServiceRecorded ∧ report.LockedIgnored := by
  rw [textStatus, printed]
  have split (recorded : report.ServiceRecorded) :
      (report.lines.foldl statusStep (none, .empty)).2 = report.status ↔ report.LockedIgnored := by
    rw [StatusReport.foldl_recorded recorded, ← StatusReport.locked_ignored_iff]
    constructor
    · intro same
      have shares := congrArg SambaStatus.shares same
      exact List.map_eq_nil_iff.mp (List.append_right_eq_self.mp shares)
    · intro none
      rw [none, List.map_nil, List.append_nil]
  constructor
  · intro same
    have recorded : report.ServiceRecorded := by
      intro line member
      cases rule : isRule line with
      | true => exact .inl rfl
      | false =>
          right
          have row := row_of_table (report.serviceRows line member) rule
          have share : shareEntry (words line) ∈ report.status.shares :=
            List.mem_map_of_mem (List.mem_filter.mpr ⟨member, by rw [rule]; rfl⟩)
          rw [← same] at share
          rcases shares_recorded _ _ _ share with old | ⟨other, -, kept, many, entry⟩
          · cases old
          · rw [passedOver_congr (shareEntry_inj (of_decide_eq_true row) many entry), kept]
    exact ⟨recorded, (split recorded).mp same⟩
  · rintro ⟨recorded, ignored⟩
    exact (split recorded).mpr ignored

theorem textValue_injective : Function.Injective fun s : Str => Value.string (points s) := by
  intro a b same
  have codes : points a = points b := by simpa using same
  exact List.map_injective_iff.mpr (fun c d equal => Char.toNat_inj.mp equal) codes

theorem map_status {α β : Type} {f : α → β} (injective : Function.Injective f) :
    Function.Injective (SambaStatus.map f) := by
  rintro ⟨shares, sessions⟩ ⟨otherShares, otherSessions⟩ same
  rw [SambaStatus.map, SambaStatus.map, SambaStatus.mk.injEq] at same
  have equalShares : shares = otherShares := by
    refine List.map_injective_iff.mpr ?_ same.1
    rintro ⟨service, pid, machine, connectedAt⟩ ⟨service', pid', machine', connectedAt'⟩ equal
    simp only [SambaShare.mk.injEq, injective.eq_iff] at equal ⊢
    exact equal
  have equalSessions : sessions = otherSessions := by
    refine List.map_injective_iff.mpr ?_ same.2
    rintro ⟨uid, gid, pid, machine, protocol⟩ ⟨uid', gid', pid', machine', protocol'⟩ equal
    simp only [SambaSession.mk.injEq, injective.eq_iff] at equal ⊢
    exact equal
  rw [equalShares, equalSessions]

/-- Where there is no JSON, the report is read as its tables say exactly if no row of the
service table looks like a header or a dashed line, and no line of the locked files has three
words. -/
theorem status_of_report_iff (report : StatusReport) (out : Str)
    (printed : splitlines out = report.lines) :
    getSambaStatus true true .unusable (some out) =
        report.status.map (fun s => .string (points s)) ↔
      report.ServiceRecorded ∧ report.LockedIgnored := by
  have fallback : getSambaStatus true true .unusable (some out) =
      (textStatus out).map fun s => .string (points s) := rfl
  rw [fallback, (map_status textValue_injective).eq_iff]
  exact textStatus_iff report out printed

/-- One session and one share, with a table of locked files or without. -/
def officeReport (locked : Option LockedTable) : StatusReport where
  before := []
  sessionHeader := "PID Username Group Machine".toList
  sessionLines := ["----".toList, "12 al users pc".toList, []]
  serviceHeader := "Service pid Machine".toList
  serviceLines := ["----".toList, "docs 12 pc Mon".toList]
  locked := locked
  unnamed := by decide
  sessionNamed := by decide +kernel
  sessionRows := by decide +kernel
  serviceNamed := by decide +kernel
  serviceRows := by decide +kernel

def officeText : Str :=
  ("PID Username Group Machine\n----\n12 al users pc\n\n" ++
    "Service pid Machine\n----\ndocs 12 pc Mon\n").toList

theorem status_of_report_office :
    getSambaStatus true true .unusable (some officeText) =
      (officeReport none).status.map fun s => .string (points s) := by
  apply (status_of_report_iff (officeReport none) officeText (by decide +kernel)).mpr
  constructor
  · unfold StatusReport.ServiceRecorded
    decide +kernel
  · intro table none
    cases none

/-- The table that `smbstatus` prints while a file is open. -/
def openFile : LockedTable where
  title := "Locked files:".toList
  lines := ["Pid User DenyMode".toList, "----".toList, "12 1000 NONE".toList]
  titled := by decide +kernel
  rows := by decide +kernel

theorem locked_file_is_share : ¬∀ (report : StatusReport) (out : Str),
    splitlines out = report.lines → getSambaStatus true true .unusable (some out) =
      report.status.map fun s => .string (points s) := by
  intro all
  have same := all (officeReport (some openFile))
    (officeText ++ "Locked files:\nPid User DenyMode\n----\n12 1000 NONE\n".toList)
    (by decide +kernel)
  have text := map_status textValue_injective same
  revert text
  decide +kernel

end SmolNas.App
