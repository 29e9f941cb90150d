import Mathlib.Algebra.Order.Field.Rat
import SmolNas.Py.Str

/-! The disk scan of `index` and its alerts: one time stamp holds back the alerts of all
disks. -/

namespace SmolNas.App

open Py

structure DiskUsage where
  total : Nat
  used : Nat
  free : Nat
  percent : Rat
  deriving DecidableEq, Repr

structure Partition where
  device : Str
  mountpoint : Str
  fstype : Str
  deriving DecidableEq, Repr

inductive IncidentAnswer where
  | created
  | failed
  | raised
  deriving DecidableEq, Repr

/-- One turn of the scan's loop: the partition, its usage unless `disk_usage` raises, and
the clock reading and the answer of `create_incident` if the turn gets to them. -/
structure DiskGlance where
  disk : Partition
  usage : Option DiskUsage
  now : Rat
  answer : IncidentAnswer
  deriving DecidableEq, Repr

structure Incident where
  device : Str
  percent : Int
  mountpoint : Str
  total : Nat
  used : Nat
  deriving DecidableEq, Repr

def alertCooldown : Rat := 3600

def isPhysical (disk : Partition) : Bool :=
  contains disk.device "/dev/".toList && !contains disk.device "loop".toList

def DiskGlance.seen (g : DiskGlance) : Option DiskUsage :=
  if isPhysical g.disk then g.usage else none

def isAlarming (usage : DiskUsage) : Bool := decide (90 < usage.percent)

def incidentFor (disk : Partition) (usage : DiskUsage) : Incident :=
  ⟨disk.device, usage.percent.floor, disk.mountpoint, usage.total, usage.used⟩

/-- A glance and the incident that `create_incident` was called with, if it was. -/
structure Sighting where
  glance : DiskGlance
  filed : Option Incident
  deriving DecidableEq, Repr

structure AlertState where
  lastDiskAlertTime : Rat
  sightings : List Sighting

def glanceStep (s : AlertState) (g : DiskGlance) : AlertState :=
  match g.seen with
  | none => { s with sightings := s.sightings ++ [⟨g, none⟩] }
  | some usage =>
      if isAlarming usage && decide (alertCooldown < g.now - s.lastDiskAlertTime) then
        { lastDiskAlertTime := if g.answer = .raised then s.lastDiskAlertTime else g.now
          sightings := s.sightings ++ [⟨g, some (incidentFor g.disk usage)⟩] }
      else { s with sightings := s.sightings ++ [⟨g, none⟩] }

def index (s : AlertState) (glances : List DiskGlance) : AlertState := glances.foldl glanceStep s

def dashboardLoads (loads : List (List DiskGlance)) : AlertState := loads.foldl index ⟨0, []⟩

def ClockForward (loads : List (List DiskGlance)) : Prop :=
  loads.flatten.Pairwise fun g h => g.now ≤ h.now

instance (loads : List (List DiskGlance)) : Decidable (ClockForward loads) :=
  inferInstanceAs (Decidable (List.Pairwise _ _))

/-- A glance at a disk above the limit for which no incident is filed. -/
def Sighting.isSilent (x : Sighting) : Bool := x.glance.seen.any isAlarming && x.filed.isNone

/-- An incident, for whichever disk, whose `create_incident` returned. -/
def Sighting.isFiled (x : Sighting) : Bool := x.filed.isSome && x.glance.answer != .raised

section Cooldown

theorem dashboardLoads_flatten (loads : List (List DiskGlance)) :
    dashboardLoads loads = index ⟨0, []⟩ loads.flatten := by
  rw [dashboardLoads, index, List.foldl_flatten]
  rfl

theorem index_concat (s : AlertState) (glances : List DiskGlance) (g : DiskGlance) :
    index s (glances ++ [g]) = glanceStep (index s glances) g := by
  rw [index, List.foldl_append]
  rfl

theorem glanceStep_cases (s : AlertState) (g : DiskGlance) :
    ∃ filed, (glanceStep s g).sightings = s.sightings ++ [⟨g, filed⟩] ∧
      ((Sighting.isFiled ⟨g, filed⟩ = true ∧ (glanceStep s g).lastDiskAlertTime = g.now) ∨
        (glanceStep s g).lastDiskAlertTime = s.lastDiskAlertTime) ∧
      (Sighting.isSilent ⟨g, filed⟩ = true → g.now - s.lastDiskAlertTime ≤ alertCooldown) := by
  unfold glanceStep
  split
  next unseen =>
    refine ⟨none, rfl, .inr rfl, ?_⟩
    intro silent
    simp [Sighting.isSilent, unseen] at silent
  next usage seen =>
    split
    next due =>
      refine ⟨some (incidentFor g.disk usage), rfl, ?_, ?_⟩
      · by_cases raised : g.answer = .raised
        · exact .inr (if_pos raised)
        · exact .inl ⟨by simp [Sighting.isFiled, raised], if_neg raised⟩
      · intro silent
        simp [Sighting.isSilent] at silent
    next early =>
      refine ⟨none, rfl, .inr rfl, ?_⟩
      intro silent
      simp [Sighting.isSilent, seen] at silent
      simpa [silent] using early

theorem lastAlert_filed (glances : List DiskGlance) :
    (index ⟨0, []⟩ glances).lastDiskAlertTime = 0 ∨
      ∃ x ∈ (index ⟨0, []⟩ glances).sightings, x.isFiled = true ∧
        x.glance.now = (index ⟨0, []⟩ glances).lastDiskAlertTime := by
  induction glances using List.reverseRecOn with
  | nil => exact .inl rfl
  | append_singleton glances g ih =>
      rw [index_concat]
      rcases glanceStep_cases (index ⟨0, []⟩ glances) g with ⟨filed, log, moved, _⟩
      rcases moved with ⟨now, stamp⟩ | same
      · exact .inr ⟨⟨g, filed⟩, by simp [log], now, stamp.symm⟩
      · rcases ih with unset | ⟨x, member, earlier, stamp⟩
        · exact .inl (same.trans unset)
        · exact .inr ⟨x, by simp [log, member], earlier, stamp.trans same.symm⟩

theorem sighting_glance (glances : List DiskGlance) :
    ∀ x ∈ (index ⟨0, []⟩ glances).sightings, x.glance ∈ glances := by
  induction glances using List.reverseRecOn with
  | nil => simp [index]
  | append_singleton glances g ih =>
      intro x member
      rw [index_concat] at member
      rcases glanceStep_cases (index ⟨0, []⟩ glances) g with ⟨filed, log, _, _⟩
      rw [log, List.mem_append, List.mem_singleton] at member
      rcases member with earlier | last
      · exact List.mem_append_left _ (ih x earlier)
      · simp [last]

theorem sighting_split {before after : List Sighting} {x : Sighting} (glances : List DiskGlance)
    (split : (index ⟨0, []⟩ glances).sightings = before ++ x :: after) :
    ∃ earlier later, glances = earlier ++ x.glance :: later ∧
      (index ⟨0, []⟩ earlier).sightings = before ∧
      (x.isSilent = true →
        x.glance.now - (index ⟨0, []⟩ earlier).lastDiskAlertTime ≤ alertCooldown) := by
  induction glances using List.reverseRecOn generalizing after with
  | nil => simp [index] at split
  | append_singleton glances g ih =>
      rw [index_concat] at split
      rcases glanceStep_cases (index ⟨0, []⟩ glances) g with ⟨filed, log, _, silent⟩
      rw [log] at split
      induction after using List.reverseRecOn with
      | nil =>
          have parts := List.append_inj split (by
            have lengths := congrArg List.length split
            simpa using lengths)
          have same : ⟨g, filed⟩ = x := (List.cons.inj parts.2).1
          subst same
          exact ⟨glances, [], rfl, parts.1, silent⟩
      | append_singleton after y _ =>
          have regrouped : (index ⟨0, []⟩ glances).sightings ++ [⟨g, filed⟩] =
              (before ++ x :: after) ++ [y] := by
            simpa using split
          rcases ih (List.append_inj_left' regrouped rfl) with ⟨earlier, later, whole, log, quiet⟩
          exact ⟨earlier, later ++ [g], by simp [whole], log, quiet⟩

end Cooldown

/-- A disk above the limit goes without an incident only within the cooldown of an
incident for some disk, or of the epoch. -/
theorem silence_within_cooldown (loads : List (List DiskGlance)) (forward : ClockForward loads)
    (before after : List Sighting) (x : Sighting)
    (split : (dashboardLoads loads).sightings = before ++ x :: after)
    (silent : x.isSilent = true) :
    x.glance.now ≤ alertCooldown ∨ ∃ y ∈ before, y.isFiled = true ∧
      y.glance.now ≤ x.glance.now ∧ x.glance.now - y.glance.now ≤ alertCooldown := by
  rw [dashboardLoads_flatten] at split
  rcases sighting_split loads.flatten split with ⟨earlier, later, whole, log, quiet⟩
  have cool := quiet silent
  rcases lastAlert_filed earlier with unset | ⟨y, member, filed, stamp⟩
  · rw [unset, sub_zero] at cool
    exact .inl cool
  · rw [← stamp] at cool
    have order : y.glance.now ≤ x.glance.now := by
      rw [ClockForward, whole, List.pairwise_append] at forward
      exact forward.2.2 _ (sighting_glance earlier y member) _ List.mem_cons_self
    rw [log] at member
    exact .inr ⟨y, member, filed, order, cool⟩

/-- In every run, a disk above the limit goes without an incident only within the cooldown of
an earlier sighting that `cause` allows. -/
def SilencedOnlyBy (cause : Sighting → Sighting → Prop) : Prop :=
  ∀ loads, ClockForward loads → ∀ before after x,
    (dashboardLoads loads).sightings = before ++ x :: after → x.isSilent = true →
      ∃ y ∈ before, cause y x ∧ x.glance.now - y.glance.now ≤ alertCooldown

def Sighting.IsCreated (x : Sighting) : Prop := x.filed ≠ none ∧ x.glance.answer = .created

def Sighting.SameDisk (x y : Sighting) : Prop := x.glance.disk.device = y.glance.disk.device

instance (x : Sighting) : Decidable x.IsCreated := inferInstanceAs (Decidable (_ ∧ _))

instance (x y : Sighting) : Decidable (x.SameDisk y) := inferInstanceAs (Decidable (_ = _))

def fullDisk (device : String) (now : Rat) (answer : IncidentAnswer) : DiskGlance :=
  ⟨⟨device.toList, "/mnt/data".toList, "ext4".toList⟩, some ⟨100, 95, 5, 95⟩, now, answer⟩

def twoFullDisks : List (List DiskGlance) :=
  [[fullDisk "/dev/sda1" 10000 .created, fullDisk "/dev/sdb1" 10000 .created]]

/-- The delivery of the first load fails, the second load comes a minute later. -/
def failedDelivery : List (List DiskGlance) :=
  [[fullDisk "/dev/sda1" 10000 .failed], [fullDisk "/dev/sda1" 10060 .created]]

def fullIncident : Incident := ⟨"/dev/sda1".toList, 95, "/mnt/data".toList, 100, 95⟩

/-- The second of two full disks in one load gets no incident, and no disk gets one in the hour
after a delivery that failed. -/
theorem second_disk_silent :
    ¬SilencedOnlyBy (fun y x => y.SameDisk x ∧ y.IsCreated) ∧
      ¬SilencedOnlyBy (fun y x => y.SameDisk x ∧ y.isFiled = true) ∧
      ¬SilencedOnlyBy (fun y _ => y.IsCreated) := by
  have other : ¬SilencedOnlyBy (fun y x => y.SameDisk x ∧ y.isFiled = true) := by
    intro all
    have found := all twoFullDisks (by decide +kernel)
      [⟨fullDisk "/dev/sda1" 10000 .created, some fullIncident⟩] []
      ⟨fullDisk "/dev/sdb1" 10000 .created, none⟩ (by decide +kernel) (by decide +kernel)
    revert found
    decide +kernel
  have failed : ¬SilencedOnlyBy (fun y _ => y.IsCreated) := by
    intro all
    have found := all failedDelivery (by decide +kernel)
      [⟨fullDisk "/dev/sda1" 10000 .failed, some fullIncident⟩] []
      ⟨fullDisk "/dev/sda1" 10060 .created, none⟩ (by decide +kernel) (by decide +kernel)
    revert found
    decide +kernel
  refine ⟨?_, other, failed⟩
  intro all
  refine failed fun loads forward before after x split silent => ?_
  rcases all loads forward before after x split silent with ⟨y, member, both, near⟩
  exact ⟨y, member, both.2, near⟩

theorem silence_within_cooldown_second :
    let x : Sighting := ⟨fullDisk "/dev/sdb1" 10000 .created, none⟩
    x.glance.now ≤ alertCooldown ∨ ∃ y ∈ (dashboardLoads twoFullDisks).sightings.take 1,
      y.isFiled = true ∧ y.glance.now ≤ x.glance.now ∧
        x.glance.now - y.glance.now ≤ alertCooldown :=
  silence_within_cooldown twoFullDisks (by decide +kernel) _ [] _ (by decide +kernel)
    (by decide +kernel)

end SmolNas.App
