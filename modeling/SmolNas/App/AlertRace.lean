import Mathlib.Data.Fintype.Basic
import Mathlib.Data.List.Count
import Mathlib.Logic.Function.Basic
import Mathlib.Tactic.Linarith
import SmolNas.App.DiskAlerts

/-! Dashboard loads at the same time: each of them reads the clock, compares it with the
shared time stamp, calls `create_incident` and then writes the stamp, in steps of their
own. -/

namespace SmolNas.App

/-- A partition of the scan, and its usage unless `disk_usage` raises. -/
abbrev ScannedDisk := Partition × Option DiskUsage

/-- Where a load is in its scan, with the partitions that are still to come. -/
inductive ScanPhase where
  | scanning (rest : List ScannedDisk)
  | timed (incident : Incident) (curTime : Rat) (rest : List ScannedDisk)
  | calling (incident : Incident) (curTime : Rat) (rest : List ScannedDisk)
  | answered (curTime : Rat) (answer : IncidentAnswer) (rest : List ScannedDisk)
  deriving DecidableEq, Repr

/-- Past the check, with the stamp not written yet. -/
def ScanPhase.isAlerting : ScanPhase → Bool
  | calling _ _ _ => true
  | answered _ _ _ => true
  | _ => false

structure FiledIncident where
  incident : Incident
  time : Rat
  deriving DecidableEq, Repr

/-- One step of a load. A step that is a call of `create_incident` puts an incident into
the incident table or does not, and has its answer. -/
structure ScanEvent (ι : Type) where
  now : Rat
  load : ι
  filed : Bool
  answer : IncidentAnswer

structure ScanState (ι : Type) where
  lastDiskAlertTime : Rat
  phase : ι → ScanPhase
  /-- The incident table. -/
  filed : List FiledIncident

namespace ScanState

variable {ι : Type} [DecidableEq ι]

def step (s : ScanState ι) (e : ScanEvent ι) : ScanState ι :=
  let enter := Function.update s.phase e.load
  match s.phase e.load with
  | .scanning [] => s
  | .scanning ((disk, usage) :: rest) =>
      match if isPhysical disk then usage else none with
      | none => { s with phase := enter (.scanning rest) }
      | some usage =>
          if isAlarming usage then
            { s with phase := enter (.timed (incidentFor disk usage) e.now rest) }
          else { s with phase := enter (.scanning rest) }
  | .timed incident curTime rest =>
      if alertCooldown < curTime - s.lastDiskAlertTime then
        { s with phase := enter (.calling incident curTime rest) }
      else { s with phase := enter (.scanning rest) }
  | .calling incident curTime rest =>
      { s with
        phase := enter (.answered curTime e.answer rest)
        filed := s.filed ++ if e.filed then [⟨incident, e.now⟩] else [] }
  | .answered curTime answer rest =>
      { s with
        lastDiskAlertTime := if answer = .raised then s.lastDiskAlertTime else curTime
        phase := enter (.scanning rest) }

def run (s : ScanState ι) (events : List (ScanEvent ι)) : ScanState ι := events.foldl step s

/-- The server has started and every load has its scan before it. -/
def start (disks : ι → List ScannedDisk) : ScanState ι := ⟨0, fun i => .scanning (disks i), []⟩

/-- A load that passes the check is the only one past it, and passes it more than `delay`
after the cooldown. An incident is filed within `delay` of its load's clock reading, and
a call that raises has filed none. -/
def SparesIn (delay : Rat) (s : ScanState ι) (e : ScanEvent ι) : ScanPhase → Prop
  | .timed _ curTime _ => alertCooldown < curTime - s.lastDiskAlertTime →
      alertCooldown + delay < curTime - s.lastDiskAlertTime ∧
        ∀ i, (s.phase i).isAlerting = false
  | .calling _ curTime _ =>
      e.filed = true → e.now ≤ curTime + delay ∧ e.answer ≠ .raised
  | _ => True

def Spares (delay : Rat) (s : ScanState ι) (e : ScanEvent ι) : Prop :=
  s.SparesIn delay e (s.phase e.load)

def SparesAlong (delay : Rat) : ScanState ι → List (ScanEvent ι) → Prop
  | _, [] => True
  | s, e :: events => s.Spares delay e ∧ (s.step e).SparesAlong delay events

instance [Fintype ι] (delay : Rat) (s : ScanState ι) (e : ScanEvent ι) :
    (phase : ScanPhase) → Decidable (s.SparesIn delay e phase)
  | .scanning _ => isTrue trivial
  | .timed _ _ _ => inferInstanceAs (Decidable (_ → _ ∧ _))
  | .calling _ _ _ => inferInstanceAs (Decidable (_ → _ ∧ _))
  | .answered _ _ _ => isTrue trivial

instance [Fintype ι] (delay : Rat) (s : ScanState ι) (e : ScanEvent ι) :
    Decidable (s.Spares delay e) :=
  inferInstanceAs (Decidable (s.SparesIn delay e (s.phase e.load)))

instance decidableSparesAlong [Fintype ι] (delay : Rat) :
    (s : ScanState ι) → (events : List (ScanEvent ι)) → Decidable (s.SparesAlong delay events)
  | _, [] => isTrue trivial
  | s, e :: events =>
      have := decidableSparesAlong delay (s.step e) events
      inferInstanceAs (Decidable (_ ∧ _))

end ScanState

/-- In no period as long as the cooldown are there two incidents. -/
def IncidentsSpaced (filed : List FiledIncident) : Prop :=
  ∀ a, filed.countP (fun x => a ≤ x.time ∧ x.time ≤ a + alertCooldown) ≤ 1

section Paced

/-- What holds of a phase at some time: what was filed is at most `delay` after the stamp,
or after the one that the phase is about to write. -/
def PhaseKept (delay now last : Rat) (filed : List FiledIncident) : ScanPhase → Prop
  | .scanning _ => True
  | .timed _ curTime _ => curTime ≤ now
  | .calling _ curTime _ => curTime ≤ now ∧ last ≤ curTime ∧
      ∀ x ∈ filed, x.time ≤ last + delay ∧ x.time + alertCooldown < curTime
  | .answered curTime answer _ =>
      ∀ x ∈ filed, x.time ≤ (if answer = .raised then last else curTime) + delay

structure Paced {ι : Type} (delay now : Rat) (s : ScanState ι) : Prop where
  spaced : s.filed.Pairwise fun x y => x.time + alertCooldown < y.time
  alone : ∀ i j, (s.phase i).isAlerting = true → (s.phase j).isAlerting = true → i = j
  quiet : (∀ i, (s.phase i).isAlerting = false) →
    ∀ x ∈ s.filed, x.time ≤ s.lastDiskAlertTime + delay
  kept : ∀ i, PhaseKept delay now s.lastDiskAlertTime s.filed (s.phase i)

variable {ι : Type} {delay now later last last' : Rat} {filed filed' : List FiledIncident}
  {phase : ScanPhase} {s : ScanState ι}

theorem phaseKept_later (kept : PhaseKept delay now last filed phase) (forward : now ≤ later) :
    PhaseKept delay later last filed phase := by
  cases phase with
  | scanning rest => trivial
  | timed incident curTime rest => exact le_trans kept forward
  | calling incident curTime rest => exact ⟨le_trans kept.1 forward, kept.2⟩
  | answered curTime answer rest => exact kept

theorem phaseKept_idle (idle : phase.isAlerting = false)
    (kept : PhaseKept delay now last filed phase) (forward : now ≤ later) :
    PhaseKept delay later last' filed' phase := by
  cases phase with
  | scanning rest => trivial
  | timed incident curTime rest => exact le_trans kept forward
  | calling incident curTime rest => cases idle
  | answered curTime answer rest => cases idle

theorem paced_start (disks : ι → List ScannedDisk) :
    Paced delay now (ScanState.start disks) where
  spaced := List.Pairwise.nil
  alone _ _ past := by cases past
  quiet _ _ member := by cases member
  kept _ := trivial

theorem idle_of_alone {i : ι} (paced : Paced delay now s)
    (past : (s.phase i).isAlerting = true) (j : ι) (other : j ≠ i) :
    (s.phase j).isAlerting = false := by
  cases idle : (s.phase j).isAlerting with
  | false => rfl
  | true => exact absurd (paced.alone j i idle past) other

variable [DecidableEq ι] {i : ι}

theorem paced_idle (paced : Paced delay now s) (forward : now ≤ later)
    (before : (s.phase i).isAlerting = false) (after : phase.isAlerting = false)
    (kept : PhaseKept delay later s.lastDiskAlertTime s.filed phase) :
    Paced delay later { s with phase := Function.update s.phase i phase } := by
  have same (j : ι) : ((Function.update s.phase i phase) j).isAlerting =
      (s.phase j).isAlerting := by
    by_cases own : j = i
    · rw [own, Function.update_self, before, after]
    · rw [Function.update_of_ne own]
  refine ⟨paced.spaced, ?_, ?_, ?_⟩
  · intro j k first second
    rw [same] at first second
    exact paced.alone j k first second
  · intro idle
    exact paced.quiet fun j => same j ▸ idle j
  · intro j
    by_cases own : j = i
    · simpa only [own, Function.update_self] using kept
    · simp only [Function.update_of_ne own]
      exact phaseKept_later (paced.kept j) forward

/-- The only load past its check, or the one that passes it, moves on; the stamp and the
table may change. -/
theorem paced_alert (paced : Paced delay now s) (forward : now ≤ later)
    (others : ∀ j, j ≠ i → (s.phase j).isAlerting = false)
    (spaced : filed.Pairwise fun x y => x.time + alertCooldown < y.time)
    (quiet : phase.isAlerting = false → ∀ x ∈ filed, x.time ≤ last + delay)
    (kept : PhaseKept delay later last filed phase) :
    Paced delay later ⟨last, Function.update s.phase i phase, filed⟩ := by
  have only (j : ι) (past : ((Function.update s.phase i phase) j).isAlerting = true) : j = i := by
    by_contra other
    rw [Function.update_of_ne other, others j other] at past
    cases past
  refine ⟨spaced, ?_, ?_, ?_⟩
  · intro j k first second
    rw [only j first, only k second]
  · intro idle
    have own := idle i
    simp only [Function.update_self] at own
    exact quiet own
  · intro j
    by_cases own : j = i
    · simpa only [own, Function.update_self] using kept
    · simp only [Function.update_of_ne own]
      exact phaseKept_idle (others j own) (paced.kept j) forward

theorem paced_step (paced : Paced delay now s) (e : ScanEvent ι) (forward : now ≤ e.now)
    (spares : s.Spares delay e) : Paced delay e.now (s.step e) := by
  have kept := paced.kept e.load
  unfold ScanState.step
  rw [ScanState.Spares] at spares
  cases phase : s.phase e.load with
  | scanning rest =>
      have before : (s.phase e.load).isAlerting = false := by rw [phase]; rfl
      cases rest with
      | nil =>
          refine ⟨paced.spaced, paced.alone, paced.quiet, ?_⟩
          intro j
          exact phaseKept_later (paced.kept j) forward
      | cons disk rest =>
          dsimp only
          split
          · exact paced_idle paced forward before rfl trivial
          · split
            · exact paced_idle paced forward before rfl (le_refl e.now)
            · exact paced_idle paced forward before rfl trivial
  | timed incident curTime rest =>
      rw [phase] at kept spares
      dsimp only
      split
      next due =>
        rcases spares due with ⟨late, idle⟩
        have settled := paced.quiet idle
        apply paced_alert paced forward (fun j _ => idle j) paced.spaced (fun _ => settled)
        refine ⟨le_trans kept forward, ?_, ?_⟩
        · have positive : (0 : Rat) < alertCooldown := by decide +kernel
          linarith
        · intro x member
          have bound := settled x member
          exact ⟨bound, by linarith⟩
      next early =>
        exact paced_idle paced forward (by rw [phase]; rfl) rfl trivial
  | calling incident curTime rest =>
      rw [phase] at kept spares
      rcases kept with ⟨read, stamped, settled⟩
      have others := idle_of_alone paced (i := e.load) (by rw [phase]; rfl)
      apply paced_alert paced forward others
      · split
        next put =>
          rw [List.pairwise_append]
          refine ⟨paced.spaced, List.pairwise_singleton _ _, ?_⟩
          intro x member y last
          rw [List.mem_singleton.mp last]
          calc
            x.time + alertCooldown < curTime := (settled x member).2
            _ ≤ now := read
            _ ≤ e.now := forward
        next => simpa using paced.spaced
      · intro idle
        cases idle
      · intro x member
        rcases List.mem_append.mp member with old | new
        · have bound := (settled x old).1
          split
          · exact bound
          · linarith
        · split at new
          next put =>
            rw [List.mem_singleton.mp new, if_neg (spares put).2]
            exact (spares put).1
          next => cases new
  | answered curTime answer rest =>
      rw [phase] at kept
      have others := idle_of_alone paced (i := e.load) (by rw [phase]; rfl)
      exact paced_alert paced forward others paced.spaced (fun _ => kept) trivial

theorem paced_run (events : List (ScanEvent ι)) (paced : Paced delay now s)
    (forward : ∀ e ∈ events, now ≤ e.now) (ordered : events.Pairwise fun d e => d.now ≤ e.now)
    (spares : s.SparesAlong delay events) : ∃ now, Paced delay now (s.run events) := by
  induction events generalizing s now with
  | nil => exact ⟨now, paced⟩
  | cons e events ih =>
      rw [List.pairwise_cons] at ordered
      have next := paced_step paced e (forward e List.mem_cons_self) spares.1
      exact ih next ordered.1 ordered.2 spares.2

theorem incidents_of_pairwise
    (spaced : filed.Pairwise fun x y => x.time + alertCooldown < y.time) :
    IncidentsSpaced filed := by
  intro a
  induction filed with
  | nil => exact Nat.zero_le 1
  | cons x filed ih =>
      rw [List.pairwise_cons] at spaced
      rw [List.countP_cons]
      split
      next inside =>
        simp only [decide_eq_true_eq] at inside
        have none : filed.countP (fun x => a ≤ x.time ∧ x.time ≤ a + alertCooldown) = 0 := by
          rw [List.countP_eq_zero]
          intro y member
          have gap := spaced.1 y member
          simp only [decide_eq_true_eq, not_and, not_le]
          intro _
          linarith
        omega
      next => exact ih spaced.2

end Paced

/-- In every run whose steps spare the cooldown, the incidents are more than an hour
apart. -/
theorem incidents_spaced {ι : Type} [DecidableEq ι] (disks : ι → List ScannedDisk) (delay : Rat)
    (events : List (ScanEvent ι)) (ordered : events.Pairwise fun d e => d.now ≤ e.now)
    (spares : (ScanState.start disks).SparesAlong delay events) :
    IncidentsSpaced ((ScanState.start disks).run events).filed := by
  cases events with
  | nil => exact incidents_of_pairwise List.Pairwise.nil
  | cons e events =>
      have forward (d : ScanEvent ι) (member : d ∈ e :: events) : e.now ≤ d.now := by
        rcases List.mem_cons.mp member with same | later
        · rw [same]
        · exact List.rel_of_pairwise_cons ordered later
      rcases paced_run (e :: events) (paced_start disks) forward ordered spares with ⟨now, paced⟩
      exact incidents_of_pairwise paced.spaced

def oneFullDisk : Bool → List ScannedDisk := fun _ =>
  [(⟨"/dev/sda1".toList, "/mnt/data".toList, "ext4".toList⟩, some ⟨100, 95, 5, 95⟩)]

/-- The steps of one load: the clock, the check, the call, the stamp. -/
def loadAt (now : Rat) (load : Bool) : List (ScanEvent Bool) :=
  [⟨now, load, false, .created⟩, ⟨now, load, false, .created⟩, ⟨now + 1, load, true, .created⟩,
    ⟨now + 1, load, false, .created⟩]

def loadsAtOnce : List (ScanEvent Bool) :=
  ((loadAt 10000 false).zip (loadAt 10000 true)).flatMap fun pair => [pair.1, pair.2]

/-- Both loads pass the check before the first of them writes the stamp. -/
theorem two_incidents_at_once : ¬∀ (ι : Type) (_ : DecidableEq ι) (disks : ι → List ScannedDisk)
    (events : List (ScanEvent ι)), events.Pairwise (fun d e => d.now ≤ e.now) →
      IncidentsSpaced ((ScanState.start disks).run events).filed := by
  intro all
  have spaced := all Bool inferInstance oneFullDisk loadsAtOnce (by decide +kernel) 10000
  revert spaced
  decide +kernel

theorem incidents_spaced_apart :
    ((ScanState.start oneFullDisk).run (loadAt 10000 false ++ loadAt 20000 true)).filed.length = 2 ∧
      IncidentsSpaced
        ((ScanState.start oneFullDisk).run (loadAt 10000 false ++ loadAt 20000 true)).filed :=
  ⟨by decide +kernel, incidents_spaced oneFullDisk 1 _ (by decide +kernel) (by decide +kernel)⟩

end SmolNas.App
