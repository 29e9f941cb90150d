import Mathlib.Data.List.Nodup
import SmolNas.App.BackupHistory

/-! What holds between any two steps of `_append_backup_history` calls. -/

namespace SmolNas.App

open Py

section Invariant

variable {ι J : Type} {json : ListJson J} {record : ι → J}
  {s t : HistoryState ι J} {i : ι}

/-- What holds between any two steps. -/
structure HistoryInv (json : ListJson J) (record : ι → J) (s : HistoryState ι J) : Prop where
  faithful : s.Faithful json record
  nodup : s.turns.Nodup
  unturned : ∀ i, s.phase i = .waiting → i ∉ s.turns
  holder : ∀ i, (s.phase i).isActive = true → s.lock = some i
  turn : ∀ i, (s.phase i).isActive = true → ∃ before, s.turns = before ++ [i]
  unsaved : ∀ i, s.phase i ≠ .finishing → s.phase i ≠ .done → s.persisted i = false
  current : ∀ i history, (s.phase i).history? = some history → s.blind i = false →
    history = capped (s.records record ++ [record i])
  short : ∀ i history, (s.phase i).history? = some history → s.blind i = true →
    history = [record i] ∧ s.records record ≠ []
  complete : ∀ i history, s.phase i = .written history →
    s.temporary = some (json.dump history)

theorem only_holder (inv : HistoryInv json record s) (active : (s.phase i).isActive = true)
    {j : ι} (other : (s.phase j).isActive = true) : j = i :=
  Option.some.inj ((inv.holder j other).symm.trans (inv.holder i active))

theorem active_of_history {phase : AppendPhase J} {history : List J}
    (found : phase.history? = some history) : phase.isActive = true := by
  cases phase <;> first | rfl | cases found

theorem loads_records (inv : HistoryInv json record s) :
    loadBackupHistory json false s.file = capped (s.records record) := by
  rw [inv.faithful]
  split
  next none => rw [none, capped_nil, loadBackupHistory]
  next some => simp [loadBackupHistory, json.load_dump, capped_eq]

/-- No call is under way any more, whether the last one released the lock or the process
crashed. -/
theorem inv_rest (inv : HistoryInv json record s) (file : t.file = s.file)
    (turns : t.turns = s.turns) (persisted : t.persisted = s.persisted)
    (rest : ∀ j, (t.phase j = .waiting ∧ s.phase j = .waiting) ∨ t.phase j = .done) :
    HistoryInv json record t := by
  have same : t.records record = s.records record := by
    rw [HistoryState.records, HistoryState.records, turns, persisted]
  have idle (j : ι) : (t.phase j).isActive = false := by
    rcases rest j with waiting | done
    · rw [waiting.1]
      rfl
    · rw [done]
      rfl
  have none (j : ι) (history : List J) : (t.phase j).history? ≠ some history := by
    intro found
    have active := active_of_history found
    rw [idle j] at active
    cases active
  constructor
  · rw [HistoryState.Faithful, file, same]
    exact inv.faithful
  · rw [turns]
    exact inv.nodup
  · intro j waiting
    rcases rest j with both | done
    · rw [turns]
      exact inv.unturned j both.2
    · rw [done] at waiting
      cases waiting
  · intro j active
    rw [idle j] at active
    cases active
  · intro j active
    rw [idle j] at active
    cases active
  · intro j _ unfinished
    rcases rest j with both | done
    · rw [persisted]
      exact inv.unsaved j (by simp [both.2]) (by simp [both.2])
    · exact absurd done unfinished
  · intro j history found
    exact absurd found (none j history)
  · intro j history found
    exact absurd found (none j history)
  · intro j history found
    have busy := idle j
    rw [found] at busy
    cases busy

theorem inv_crash (inv : HistoryInv json record s) : HistoryInv json record s.crashed := by
  refine inv_rest inv rfl rfl rfl ?_
  intro j
  cases phase : s.phase j <;> simp [HistoryState.crashed, phase]

theorem inv_start (temporary : Option Str) :
    HistoryInv json record (HistoryState.start (ι := ι) temporary) := by
  constructor
  · rfl
  · exact List.nodup_nil
  · intro i _
    exact List.not_mem_nil
  · intro i active
    cases active
  · intro i active
    cases active
  · intro i _ _
    rfl
  · intro i history found
    cases found
  · intro i history found
    cases found
  · intro i history found
    cases found

theorem not_sighted {e : AppendEvent ι} (unseen : ¬s.Sighted e) :
    ∃ i history stored, e = .step i false stored ∧ s.phase i = .written history ∧
      s.blind i = true := by
  cases e with
  | crash => exact absurd trivial unseen
  | step i fails stored =>
      simp only [HistoryState.Sighted, Classical.not_imp, Bool.not_eq_false] at unseen
      rcases unseen with ⟨late, fine, blind⟩
      cases here : s.phase i with
      | written history => exact ⟨i, history, stored, by rw [fine], here, blind⟩
      | _ => rw [here] at late; cases late

variable [DecidableEq ι]

theorem inv_release (inv : HistoryInv json record s) (here : s.phase i = .finishing) :
    HistoryInv json record { s.enter i .done with lock := none } := by
  have active : (s.phase i).isActive = true := by
    rw [here]
    rfl
  refine inv_rest inv rfl rfl rfl ?_
  intro j
  by_cases eq : j = i
  · simp [HistoryState.enter, eq]
  · have idle : (s.phase j).isActive ≠ true := fun busy => eq (only_holder inv active busy)
    cases phase : s.phase j <;> simp_all [HistoryState.enter, AppendPhase.isActive]

theorem inv_acquire (inv : HistoryInv json record s) (here : s.phase i = .waiting)
    (free : s.lock = none) :
    HistoryInv json record { s.enter i .locked with lock := some i, turns := s.turns ++ [i] } := by
  have idle (j : ι) : (s.phase j).isActive ≠ true := by
    intro busy
    have held := inv.holder j busy
    rw [free] at held
    cases held
  have unsaved : s.persisted i = false := inv.unsaved i (by simp [here]) (by simp [here])
  have same : HistoryState.records record
      { s.enter i .locked with lock := some i, turns := s.turns ++ [i] } = s.records record := by
    simp [HistoryState.records, HistoryState.enter, unsaved]
  have other (j : ι) (ne : j ≠ i) : (s.enter i .locked).phase j = s.phase j :=
    Function.update_of_ne ne _ _
  have own : (s.enter i .locked).phase i = .locked := Function.update_self i _ _
  have only (j : ι) (busy : ((s.enter i .locked).phase j).isActive = true) : j = i := by
    by_contra ne
    rw [other j ne] at busy
    exact idle j busy
  have none (j : ι) (history : List J) : ((s.enter i .locked).phase j).history? ≠ some history := by
    intro found
    rw [only j (active_of_history found), own] at found
    cases found
  constructor
  · rw [HistoryState.Faithful, same]
    exact inv.faithful
  · have all := List.Nodup.concat (inv.unturned i here) inv.nodup
    rw [List.concat_eq_append] at all
    exact all
  · intro j waiting
    by_cases eq : j = i
    · rw [eq] at waiting
      rw [own] at waiting
      cases waiting
    · simp only [List.mem_append, List.mem_singleton, not_or]
      exact ⟨inv.unturned j ((other j eq).symm.trans waiting), eq⟩
  · intro j busy
    rw [only j busy]
  · intro j busy
    rw [only j busy]
    exact ⟨s.turns, rfl⟩
  · intro j going unfinished
    by_cases eq : j = i
    · rw [eq]
      exact unsaved
    · exact inv.unsaved j (by rwa [← other j eq]) (by rwa [← other j eq])
  · intro j history found
    exact absurd found (none j history)
  · intro j history found
    exact absurd found (none j history)
  · intro j history found
    have late : ((s.enter i .locked).phase j).history? = some history := by
      rw [show (s.enter i .locked).phase j = .written history from found]
      rfl
    exact absurd late (none j history)

theorem inv_move {next : AppendPhase J} (inv : HistoryInv json record s)
    (active : (s.phase i).isActive = true) (moves : next.isActive = true)
    (file : t.file = s.file) (lock : t.lock = s.lock) (turns : t.turns = s.turns)
    (persisted : t.persisted = s.persisted) (phases : t.phase = Function.update s.phase i next)
    (unsaved : next ≠ .finishing → s.persisted i = false)
    (current : ∀ history, next.history? = some history → t.blind i = false →
      history = capped (s.records record ++ [record i]))
    (short : ∀ history, next.history? = some history → t.blind i = true →
      history = [record i] ∧ s.records record ≠ [])
    (complete : ∀ history, next = .written history → t.temporary = some (json.dump history)) :
    HistoryInv json record t := by
  have same : t.records record = s.records record := by
    rw [HistoryState.records, HistoryState.records, turns, persisted]
  have own : t.phase i = next := by rw [phases, Function.update_self]
  have other (j : ι) (ne : j ≠ i) : t.phase j = s.phase j := by
    rw [phases, Function.update_of_ne ne]
  have idle (j : ι) (ne : j ≠ i) : (t.phase j).isActive ≠ true := by
    rw [other j ne]
    exact fun busy => ne (only_holder inv active busy)
  constructor
  · rw [HistoryState.Faithful, file, same]
    exact inv.faithful
  · rw [turns]
    exact inv.nodup
  · intro j waiting
    by_cases eq : j = i
    · rw [eq, own] at waiting
      rw [waiting] at moves
      cases moves
    · rw [other j eq] at waiting
      rw [turns]
      exact inv.unturned j waiting
  · intro j busy
    by_cases eq : j = i
    · rw [lock, eq]
      exact inv.holder i active
    · exact absurd busy (idle j eq)
  · intro j busy
    by_cases eq : j = i
    · rw [turns, eq]
      exact inv.turn i active
    · exact absurd busy (idle j eq)
  · intro j going unfinished
    rw [persisted]
    by_cases eq : j = i
    · rw [eq]
      rw [eq, own] at going
      exact unsaved going
    · rw [other j eq] at going unfinished
      exact inv.unsaved j going unfinished
  · intro j history found sighted
    by_cases eq : j = i
    · subst eq
      rw [own] at found
      rw [same]
      exact current history found sighted
    · exact absurd (active_of_history found) (idle j eq)
  · intro j history found blind
    by_cases eq : j = i
    · subst eq
      rw [own] at found
      rw [same]
      exact short history found blind
    · exact absurd (active_of_history found) (idle j eq)
  · intro j history found
    by_cases eq : j = i
    · rw [eq, own] at found
      exact complete history found
    · have busy := idle j eq
      rw [found] at busy
      exact absurd rfl busy

theorem inv_carry {next : AppendPhase J} {history : List J} (inv : HistoryInv json record s)
    (here : (s.phase i).history? = some history) (moves : next.isActive = true)
    (file : t.file = s.file) (lock : t.lock = s.lock) (turns : t.turns = s.turns)
    (persisted : t.persisted = s.persisted) (phases : t.phase = Function.update s.phase i next)
    (blind : t.blind = s.blind) (same : next.history? = none ∨ next.history? = some history)
    (complete : ∀ history, next = .written history → t.temporary = some (json.dump history)) :
    HistoryInv json record t := by
  have carried (found : List J) (held : next.history? = some found) :
      (s.phase i).history? = some found := by
    rcases same with none | kept
    · rw [none] at held
      cases held
    · rw [here, ← held, kept]
  have going : s.phase i ≠ .finishing ∧ s.phase i ≠ .done := by
    constructor
    · intro finishing
      rw [finishing] at here
      cases here
    · intro done
      rw [done] at here
      cases here
  refine inv_move inv (active_of_history here) moves file lock turns persisted phases
    (fun _ => inv.unsaved i going.1 going.2) ?_ ?_ complete
  · intro found held sighted
    rw [blind] at sighted
    exact inv.current i found (carried found held) sighted
  · intro found held unseen
    rw [blind] at unseen
    exact inv.short i found (carried found held) unseen

theorem inv_load (inv : HistoryInv json record s) (here : s.phase i = .locked) (fails : Bool) :
    HistoryInv json record
      { s.enter i (.loaded (capped (loadBackupHistory json fails s.file ++ [record i]))) with
        blind := Function.update s.blind i
          (fails && !(loadBackupHistory json false s.file).isEmpty) } := by
  refine inv_move inv (by rw [here]; rfl) rfl rfl rfl rfl rfl rfl
    (fun _ => inv.unsaved i (by simp [here]) (by simp [here])) ?_ ?_ (by simp)
  · intro history found sighted
    have loaded : loadBackupHistory json fails s.file = capped (s.records record) := by
      have all := loads_records inv
      cases fails with
      | false => exact all
      | true =>
          simp at sighted
          rw [← all, sighted]
          cases s.file <;> rfl
    rw [← Option.some.inj found, loaded, capped_capped_concat]
  · intro history found blind
    simp at blind
    have some : s.records record ≠ [] := by
      intro none
      have all := loads_records inv
      rw [none, capped_nil] at all
      exact blind.2 all
    have nothing : loadBackupHistory json fails s.file = [] := by
      rw [blind.1]
      cases s.file <;> rfl
    rw [← Option.some.inj found, nothing, List.nil_append, capped_singleton]
    exact ⟨rfl, some⟩

theorem records_replace (inv : HistoryInv json record s) (active : (s.phase i).isActive = true)
    (unsaved : s.persisted i = false) (turns : t.turns = s.turns)
    (persisted : t.persisted = Function.update s.persisted i true) :
    t.records record = s.records record ++ [record i] := by
  rcases inv.turn i active with ⟨before, last⟩
  have nodup := inv.nodup
  rw [last] at nodup
  have absent : i ∉ before := by
    intro member
    exact (List.nodup_append.mp nodup).2.2 i member i (by simp) rfl
  have rest : before.filter t.persisted = before.filter s.persisted := by
    apply List.filter_congr
    intro j member
    have ne : j ≠ i := fun eq => absent (eq ▸ member)
    rw [persisted, Function.update_of_ne ne]
  rw [HistoryState.records, turns, last, List.filter_append, rest, HistoryState.records, last,
    List.filter_append]
  simp [persisted, unsaved]

/-- The state after the temporary file has replaced the history file. -/
def HistoryState.replaced (s : HistoryState ι J) (i : ι) : HistoryState ι J :=
  { s.enter i .finishing with
    file := s.temporary
    temporary := none
    persisted := Function.update s.persisted i true }

theorem replaced_records {history : List J} (inv : HistoryInv json record s)
    (here : s.phase i = .written history) :
    (s.replaced i).records record = s.records record ++ [record i] :=
  records_replace inv (by rw [here]; rfl) (inv.unsaved i (by simp [here]) (by simp [here])) rfl rfl

theorem inv_replace {history : List J} (inv : HistoryInv json record s)
    (here : s.phase i = .written history) (sighted : s.blind i = false) :
    HistoryInv json record (s.replaced i) := by
  have active : (s.phase i).isActive = true := by
    rw [here]
    rfl
  have held : (s.phase i).history? = some history := by
    rw [here]
    rfl
  have own : (s.replaced i).phase i = .finishing := Function.update_self i _ _
  have other (j : ι) (ne : j ≠ i) : (s.replaced i).phase j = s.phase j :=
    Function.update_of_ne ne _ _
  have only (j : ι) (busy : ((s.replaced i).phase j).isActive = true) : j = i := by
    by_contra ne
    rw [other j ne] at busy
    exact ne (only_holder inv active busy)
  have none (j : ι) (history : List J) : ((s.replaced i).phase j).history? ≠ some history := by
    intro found
    rw [only j (active_of_history found), own] at found
    cases found
  constructor
  · rw [HistoryState.Faithful, replaced_records inv here, if_neg (by simp), ← capped_eq,
      ← inv.current i history held sighted]
    exact inv.complete i history here
  · exact inv.nodup
  · intro j waiting
    by_cases eq : j = i
    · rw [eq, own] at waiting
      cases waiting
    · exact inv.unturned j ((other j eq).symm.trans waiting)
  · intro j busy
    rw [only j busy]
    exact inv.holder i active
  · intro j busy
    rw [only j busy]
    exact inv.turn i active
  · intro j going unfinished
    by_cases eq : j = i
    · rw [eq] at going
      exact absurd own going
    · rw [other j eq] at going unfinished
      have unsaved := inv.unsaved j going unfinished
      exact (Function.update_of_ne eq _ _).trans unsaved
  · intro j history found
    exact absurd found (none j history)
  · intro j history found
    exact absurd found (none j history)
  · intro j history found
    have late : ((s.replaced i).phase j).history? = some history := by
      rw [found]
      rfl
    exact absurd late (none j history)

theorem replace_blind {history : List J} (inv : HistoryInv json record s)
    (here : s.phase i = .written history) (blind : s.blind i = true) :
    ¬(s.replaced i).Faithful json record := by
  intro faithful
  have held : (s.phase i).history? = some history := by
    rw [here]
    rfl
  have short := inv.short i history held blind
  rw [HistoryState.Faithful, replaced_records inv here, if_neg (by simp)] at faithful
  have text : some (json.dump history) =
      some (json.dump (capped (s.records record ++ [record i]))) :=
    (inv.complete i history here).symm.trans faithful
  have loaded := congrArg json.load (Option.some.inj text)
  rw [json.load_dump, json.load_dump, short.1] at loaded
  have lengths := congrArg List.length (Option.some.inj loaded)
  rw [length_capped, List.length_append] at lengths
  have some := List.length_pos_iff.mpr short.2
  simp [backupHistoryLimit] at lengths
  omega

theorem inv_step {e : AppendEvent ι} (inv : HistoryInv json record s) (sighted : s.Sighted e) :
    HistoryInv json record (s.step json record e) := by
  cases e with
  | crash => exact inv_crash inv
  | step i fails stored =>
      rw [HistoryState.step, HistoryState.advance]
      cases here : s.phase i with
      | waiting =>
          dsimp only
          split
          next free => exact inv_acquire inv here (Option.isNone_iff_eq_none.mp free)
          next => exact inv
      | locked => exact inv_load inv here fails
      | loaded history =>
          have held : (s.phase i).history? = some history := by
            rw [here]
            rfl
          cases fails with
          | true => exact inv_carry inv held rfl rfl rfl rfl rfl rfl rfl (.inl rfl) (by simp)
          | false => exact inv_carry inv held rfl rfl rfl rfl rfl rfl rfl (.inr rfl) (by simp)
      | writing history =>
          have held : (s.phase i).history? = some history := by
            rw [here]
            rfl
          have stays : s.phase = Function.update s.phase i (.writing history) := by
            rw [← here, Function.update_eq_self]
          cases fails with
          | true => exact inv_carry inv held rfl rfl rfl rfl rfl rfl rfl (.inl rfl) (by simp)
          | false =>
              dsimp only
              rw [if_neg (by decide)]
              split
              next => exact inv_carry inv held rfl rfl rfl rfl rfl stays rfl (.inr rfl) (by simp)
              next all =>
                refine inv_carry inv held rfl rfl rfl rfl rfl rfl rfl (.inr rfl) ?_
                intro full same
                cases same
                dsimp only
                rw [List.take_of_length_le (not_lt.mp all)]
      | written history =>
          have held : (s.phase i).history? = some history := by
            rw [here]
            rfl
          cases fails with
          | true => exact inv_carry inv held rfl rfl rfl rfl rfl rfl rfl (.inl rfl) (by simp)
          | false => exact inv_replace inv here (sighted (by rw [here]; rfl) rfl)
      | finishing => exact inv_release inv here
      | done => exact inv

end Invariant

end SmolNas.App
