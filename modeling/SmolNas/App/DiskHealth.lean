import SmolNas.App.DiskNames
import SmolNas.Py.JsonText

/-! `get_disk_health`: what it reports of a disk for each end of the call of `smartctl`. -/

namespace SmolNas.App

open Py Json

/-- How the call of `smartctl` ends. `failed` is the `CalledProcessError` of an exit status
other than zero, with the output; `raised` is any other exception. -/
inductive SmartCall where
  | completed (out : Str)
  | failed (output : Str)
  | notFound
  | raised
  deriving DecidableEq, Repr

def SmartCall.printed : SmartCall → Option Str
  | completed out => some out
  | failed output => some output
  | notFound => none
  | raised => none

def jsonText (s : Str) : Value := .string (points s)

def smartStatus (passed : Bool) : Value := .object [(points "passed".toList, .bool passed)]

def noTemperature : Value := .object [(points "current".toList, .number "0".toList)]

def withDefaults (passed : Bool) (rawDevice : Str) (data : Value) : Option Value := do
  let data ← data.setdefault "smart_status".toList (smartStatus passed)
  let data ← data.setdefault "temperature".toList noTemperature
  let data ← data.setdefault "model_name".toList (jsonText rawDevice)
  data.setdefault "serial_number".toList (jsonText "N/A".toList)

/-- The fields that stand in for those of `smartctl`. `capacity` is the size of the root file
system in bytes, from its rounded size. -/
def placeholder (rawDevice : Str) (capacity : Nat) : Value :=
  .object [
    (points "device".toList, .object [(points "name".toList, jsonText rawDevice),
      (points "type".toList, jsonText "sat".toList)]),
    (points "smart_status".toList, smartStatus true),
    (points "temperature".toList, noTemperature),
    (points "model_name".toList, jsonText (rawDevice ++ " (smartctl unavailable in dev)".toList)),
    (points "serial_number".toList, jsonText "N/A — run in production for real data".toList),
    (points "user_capacity".toList,
      .object [(points "bytes".toList, .number (Nat.toDigits 10 capacity))]),
    (points "json_format_version".toList, .array [.number "1".toList, .number "0".toList])]

def smartData (limits : Limits) (rawDevice : Str) : SmartCall → Option Value
  | .completed out => (loads limits out).bind (withDefaults true rawDevice)
  | .failed output =>
      (loads limits (if output = [] then "\x7b\x7d".toList else output)).bind
        (withDefaults false rawDevice)
  | .notFound => none
  | .raised => none

def getDiskHealth (db : CharData) (limits : Limits) (production : Bool)
    (partitions : Option (List Partition)) (capacity : Nat) (call : SmartCall) : Value :=
  let rawDevice := rawDevice db partitions
  if production then (smartData limits rawDevice call).getD (placeholder rawDevice capacity)
  else placeholder rawDevice capacity

/-- `data['smart_status']['passed']` is true. -/
def smartPassed (data : Value) : Bool :=
  ((data.get? "smart_status".toList).bind (Value.get? "passed".toList)).any Value.isTrue

/-- In production the disk is reported as passed only if `smartctl` printed that. -/
def ReportsPrinted (db : CharData) (limits : Limits) (partitions : Option (List Partition))
    (capacity : Nat) (call : SmartCall) : Prop :=
  smartPassed (getDiskHealth db limits true partitions capacity call) = true →
    (call.printed.bind (loads limits)).any smartPassed = true

/-- `smartctl` exits with zero and prints an object that has a status, or it exits with
another status and prints nothing or an object. -/
def smartReadable (limits : Limits) : SmartCall → Bool
  | .completed out =>
      (loads limits out).any fun data => (data.get? "smart_status".toList).isSome
  | .failed output => output == [] || (loads limits output).any Value.isObject
  | .notFound => false
  | .raised => false

section Defaults

variable {passed : Bool} {rawDevice : Str} {data : Value}

theorem withDefaults_isSome (passed : Bool) (rawDevice : Str) (data : Value) :
    (withDefaults passed rawDevice data).isSome = data.isObject := by
  have set (key : Str) (item : Value) {before : Value} (object : before.isObject = true) :
      ∃ after, before.setdefault key item = some after ∧ after.isObject = true := by
    rcases Option.isSome_iff_exists.mp (Value.setdefault_isSome.trans object) with ⟨after, same⟩
    exact ⟨after, same, Value.setdefault_isObject same⟩
  unfold withDefaults
  cases object : data.isObject with
  | true =>
      rcases set "smart_status".toList (smartStatus passed) object with ⟨one, first, object⟩
      rcases set "temperature".toList noTemperature object with ⟨two, second, object⟩
      rcases set "model_name".toList (jsonText rawDevice) object with ⟨three, third, object⟩
      rw [first, Option.bind_eq_bind, Option.bind_some, second, Option.bind_some, third,
        Option.bind_some, Value.setdefault_isSome, object]
  | false =>
      have refused : data.setdefault "smart_status".toList (smartStatus passed) = none := by
        rw [← Option.not_isSome_iff_eq_none, Value.setdefault_isSome, object]
        exact Bool.false_ne_true
      rw [refused]
      rfl

theorem withDefaults_status {after : Value} (set : withDefaults passed rawDevice data = some after) :
    after.get? "smart_status".toList =
      some ((data.get? "smart_status".toList).getD (smartStatus passed)) := by
  unfold withDefaults at set
  rcases Option.bind_eq_some_iff.mp set with ⟨one, first, set⟩
  rcases Option.bind_eq_some_iff.mp set with ⟨two, second, set⟩
  rcases Option.bind_eq_some_iff.mp set with ⟨three, third, fourth⟩
  rw [Value.setdefault_other (by decide) fourth, Value.setdefault_other (by decide) third,
    Value.setdefault_other (by decide) second, Value.setdefault_own first]

theorem smartPassed_withDefaults {after : Value}
    (set : withDefaults passed rawDevice data = some after) :
    smartPassed after =
      if (data.get? "smart_status".toList).isSome then smartPassed data else passed := by
  rw [smartPassed, withDefaults_status set, smartPassed]
  cases data.get? "smart_status".toList with
  | some old => rfl
  | none => cases passed <;> rfl

theorem get?_object {key : Str} (other : data.isObject = false) : data.get? key = none := by
  cases data with
  | object pairs => cases other
  | _ => rfl

theorem smartPassed_none (missing : data.get? "smart_status".toList = none) :
    smartPassed data = false := by
  rw [smartPassed, missing]
  rfl

/-- What is reported of data that was read: everything but an object is taken for no data, and
the placeholder has passed. -/
theorem smartPassed_reported {capacity : Nat} (read : Option Value) :
    smartPassed ((read.bind (withDefaults passed rawDevice)).getD (placeholder rawDevice capacity)) =
      (!read.any Value.isObject || read.any fun data =>
        if (data.get? "smart_status".toList).isSome then smartPassed data else passed) := by
  cases read with
  | none => rfl
  | some data =>
      rw [Option.bind_some, Option.any_some, Option.any_some]
      cases set : withDefaults passed rawDevice data with
      | none =>
          have other : data.isObject = false := by
            rw [← withDefaults_isSome passed rawDevice data, set]
            rfl
          rw [other, Bool.not_false, Bool.true_or]
          rfl
      | some after =>
          have object : data.isObject = true := by
            rw [← withDefaults_isSome passed rawDevice data, set]
            rfl
          rw [object, Bool.not_true, Bool.false_or, Option.getD_some, smartPassed_withDefaults set]

end Defaults

section Reports

variable {limits : Limits} {device : Str} {capacity : Nat}

theorem loads_empty : loads limits "\x7b\x7d".toList = some (.object []) := by
  cases limits with
  | mk depth digits => cases depth <;> rfl

theorem completed_iff (read : Option Value) :
    (smartPassed ((read.bind (withDefaults true device)).getD (placeholder device capacity)) = true →
        read.any smartPassed = true) ↔
      (read.any fun data => (data.get? "smart_status".toList).isSome) = true := by
  rw [smartPassed_reported]
  cases read with
  | none => exact iff_of_false (fun all => absurd (all rfl) Bool.false_ne_true) Bool.false_ne_true
  | some data =>
      simp only [Option.any_some]
      cases status : data.get? "smart_status".toList with
      | none =>
          rw [smartPassed_none status]
          simp
      | some old =>
          have object : data.isObject = true := by
            by_contra other
            rw [get?_object (by simpa using other)] at status
            cases status
          simp [object]

theorem failed_iff (read : Option Value) :
    (smartPassed ((read.bind (withDefaults false device)).getD (placeholder device capacity)) = true →
        read.any smartPassed = true) ↔ read.any Value.isObject = true := by
  rw [smartPassed_reported]
  cases read with
  | none => exact iff_of_false (fun all => absurd (all rfl) Bool.false_ne_true) Bool.false_ne_true
  | some data =>
      simp only [Option.any_some]
      cases object : data.isObject with
      | false =>
          rw [smartPassed_none (get?_object object), Bool.not_false, Bool.true_or]
          exact iff_of_false (fun all => absurd (all rfl) Bool.false_ne_true) Bool.false_ne_true
      | true =>
          rw [Bool.not_true, Bool.false_or, iff_true_intro rfl, iff_true]
          intro reported
          split at reported
          · exact reported
          · cases reported

end Reports

/-- The report is sound exactly for the calls whose output can be read. -/
theorem reports_printed_iff (db : CharData) (limits : Limits) (partitions : Option (List Partition))
    (capacity : Nat) (call : SmartCall) :
    ReportsPrinted db limits partitions capacity call ↔ smartReadable limits call = true := by
  have fallback (device : Str) : smartPassed (placeholder device capacity) = true := rfl
  unfold ReportsPrinted getDiskHealth
  dsimp only
  rw [if_pos rfl]
  cases call with
  | notFound => simp [smartData, smartReadable, fallback, SmartCall.printed]
  | raised => simp [smartData, smartReadable, fallback, SmartCall.printed]
  | completed out => exact completed_iff (loads limits out)
  | failed output =>
      rw [smartData, smartReadable, SmartCall.printed, Option.bind_some]
      by_cases empty : output = []
      · -- nothing printed is read as an empty object
        have none : smartPassed (((loads limits "\x7b\x7d".toList).bind
            (withDefaults false (rawDevice db partitions))).getD
              (placeholder (rawDevice db partitions) capacity)) = false := by
          rw [smartPassed_reported, loads_empty]
          rfl
        rw [if_pos empty, none]
        simp [empty]
      · rw [if_neg empty, failed_iff (loads limits output)]
        simp [empty]

/-- Without the program the disk has passed. -/
theorem missing_smartctl_passes : ¬∀ (db : CharData) (limits : Limits)
    (partitions : Option (List Partition)) (capacity : Nat) (call : SmartCall),
    ReportsPrinted db limits partitions capacity call := by
  intro all
  have said := all .ascii .usual none 0 .notFound rfl
  cases said

-- a disk whose own report says that it fails
example : smartPassed (getDiskHealth .ascii .usual true none 0
    (.completed "\x7b\"smart_status\": \x7b\"passed\": false\x7d\x7d\n".toList)) = false := by
  decide +kernel

end SmolNas.App
