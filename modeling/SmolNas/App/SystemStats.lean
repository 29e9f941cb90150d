import Mathlib.Data.List.Induction
import Mathlib.Logic.Function.Basic
import Mathlib.Tactic.Linarith

/-! `get_system_stats`: the cache that the dashboard and `/api/status` share. A call reads the
clock, looks at the two entries of the cache one after the other and, where these do not serve,
takes a sample, stores it and then writes the time up to which it counts. Several calls may take
their steps in turns. -/

namespace SmolNas.App

section Cache

/-- `_SYSTEM_STATS_TTL` -/
def systemStatsTtl : Rat := 2

theorem systemStatsTtl_pos : 0 < systemStatsTtl := by
  norm_num [systemStatsTtl]

/-- What one call has measured, and when it began to. -/
structure StatsSample (α : Type) where
  stats : α
  begun : Rat
  deriving DecidableEq, Repr

/-- `_SYSTEM_STATS_CACHE` -/
structure StatsCache (α : Type) where
  data : Option (StatsSample α)
  expires : Rat
  deriving DecidableEq, Repr

def StatsCache.empty {α : Type} : StatsCache α := ⟨none, 0⟩

/-- Where a call is, with the clock reading that it began with. -/
inductive StatsPhase (α : Type) where
  | idle
  | timed (now : Rat)
  | found (now : Rat)
  | fresh (now : Rat)
  | sampling (now begun : Rat)
  | sampled (now : Rat) (sample : StatsSample α)
  | stored (now : Rat) (sample : StatsSample α)
  | stamped (now : Rat) (sample : StatsSample α) (expires : Rat)
  | answered (now : Rat) (answer : Option (StatsSample α))
  | raised
  deriving DecidableEq, Repr

/-- One step of a call. A step that measures has its result, unless `psutil` raises. -/
structure StatsEvent (ι α : Type) where
  now : Rat
  call : ι
  measured : Option α

structure StatsState (ι α : Type) where
  cache : StatsCache α
  phase : ι → StatsPhase α

namespace StatsState

variable {ι α : Type} [DecidableEq ι]

def start : StatsState ι α := ⟨.empty, fun _ => .idle⟩

def step (s : StatsState ι α) (e : StatsEvent ι α) : StatsState ι α :=
  let enter (phase : StatsPhase α) : StatsState ι α :=
    { s with phase := Function.update s.phase e.call phase }
  match s.phase e.call with
  | .idle => enter (.timed e.now)
  | .timed now => enter (if s.cache.data.isSome then .found now else .sampling now e.now)
  | .found now => enter (if now < s.cache.expires then .fresh now else .sampling now e.now)
  | .fresh now => enter (.answered now s.cache.data)
  | .sampling now begun =>
      match e.measured with
      | none => enter .raised
      | some stats => enter (.sampled now ⟨stats, begun⟩)
  | .sampled now sample =>
      { enter (.stored now sample) with cache := { s.cache with data := some sample } }
  | .stored now sample => enter (.stamped now sample (e.now + systemStatsTtl))
  | .stamped now sample expires =>
      { enter (.answered now (some sample)) with cache := { s.cache with expires := expires } }
  | .answered _ _ => s
  | .raised => s

def run (s : StatsState ι α) (events : List (StatsEvent ι α)) : StatsState ι α :=
  events.foldl step s

/-- A sample is stored, and the clock read for it, at most `delay` after it was begun. -/
def PromptIn (delay time : Rat) : StatsPhase α → Prop
  | .sampled _ sample => time ≤ sample.begun + delay
  | .stored _ sample => time ≤ sample.begun + delay
  | _ => True

def PromptAlong (delay : Rat) : StatsState ι α → List (StatsEvent ι α) → Prop
  | _, [] => True
  | s, e :: events => PromptIn delay e.now (s.phase e.call) ∧ (s.step e).PromptAlong delay events

instance (delay time : Rat) : (phase : StatsPhase α) → Decidable (PromptIn delay time phase)
  | .sampled _ _ => inferInstanceAs (Decidable (_ ≤ _))
  | .stored _ _ => inferInstanceAs (Decidable (_ ≤ _))
  | .idle | .timed _ | .found _ | .fresh _ | .sampling _ _ | .stamped _ _ _ | .answered _ _
  | .raised => isTrue trivial

instance decidablePromptAlong (delay : Rat) :
    (s : StatsState ι α) → (events : List (StatsEvent ι α)) → Decidable (s.PromptAlong delay events)
  | _, [] => isTrue trivial
  | s, e :: events =>
      have := decidablePromptAlong delay (s.step e) events
      inferInstanceAs (Decidable (_ ∧ _))

end StatsState

end Cache

section Freshness

variable {ι α : Type} {delay clock later : Rat} {data : Option (StatsSample α)}
  {phase : StatsPhase α}

def StoredSince (delay time : Rat) (data : Option (StatsSample α)) : Prop :=
  ∃ sample, data = some sample ∧ time ≤ sample.begun + delay

/-- A sample that a call with this clock reading may be answered with. -/
def ServedWith (delay now : Rat) (data : Option (StatsSample α)) : Prop :=
  ∃ sample, data = some sample ∧ now < sample.begun + systemStatsTtl + 2 * delay

/-- What holds of a call at some time, with the sample in the cache. One that has stored its
own finds it or a later one there. -/
def PhaseFresh (delay clock : Rat) (data : Option (StatsSample α)) : StatsPhase α → Prop
  | .idle => True
  | .timed now => now ≤ clock
  | .found now => now ≤ clock ∧ data.isSome = true
  | .fresh now => now ≤ clock ∧ ServedWith delay now data
  | .sampling now begun => now ≤ begun ∧ begun ≤ clock
  | .sampled now sample => now ≤ sample.begun ∧ sample.begun ≤ clock
  | .stored now sample => now ≤ sample.begun ∧ sample.begun ≤ clock ∧
      StoredSince delay sample.begun data
  | .stamped now sample expires => now ≤ sample.begun ∧ sample.begun ≤ clock ∧
      expires ≤ clock + systemStatsTtl ∧ expires ≤ sample.begun + delay + systemStatsTtl ∧
      StoredSince delay sample.begun data
  | .answered now answer => ServedWith delay now answer
  | .raised => True

structure Fresh (delay clock : Rat) (s : StatsState ι α) : Prop where
  bounded : s.cache.expires ≤ clock + systemStatsTtl
  current : ∀ sample, s.cache.data = some sample →
    s.cache.expires ≤ sample.begun + systemStatsTtl + 2 * delay
  phases : ∀ i, PhaseFresh delay clock s.cache.data (s.phase i)

theorem fresh_start : Fresh delay 0 (StatsState.start : StatsState ι α) where
  bounded := le_of_lt (by simpa [StatsState.start, StatsCache.empty] using systemStatsTtl_pos)
  current _ found := by cases found
  phases _ := trivial

theorem phaseFresh_later (kept : PhaseFresh delay clock data phase) (forward : clock ≤ later) :
    PhaseFresh delay later data phase := by
  cases phase with
  | idle => trivial
  | timed now => exact le_trans kept forward
  | found now => exact ⟨le_trans kept.1 forward, kept.2⟩
  | fresh now => exact ⟨le_trans kept.1 forward, kept.2⟩
  | sampling now begun => exact ⟨kept.1, le_trans kept.2 forward⟩
  | sampled now sample => exact ⟨kept.1, le_trans kept.2 forward⟩
  | stored now sample => exact ⟨kept.1, le_trans kept.2.1 forward, kept.2.2⟩
  | stamped now sample expires =>
      obtain ⟨first, before, past, rest⟩ := kept
      exact ⟨first, le_trans before forward, by linarith, rest⟩
  | answered now answer => exact kept
  | raised => trivial

theorem served_of_stored {now : Rat} {sample : StatsSample α} (small : 0 ≤ delay)
    (prompt : now ≤ sample.begun + delay) : ServedWith delay now (some sample) := by
  have positive := systemStatsTtl_pos
  exact ⟨sample, rfl, by linarith⟩

theorem phaseFresh_stored {sample : StatsSample α} (kept : PhaseFresh delay clock data phase)
    (forward : clock ≤ later) (small : 0 ≤ delay) (prompt : later ≤ sample.begun + delay) :
    PhaseFresh delay later (some sample) phase := by
  cases phase with
  | found now => exact ⟨le_trans kept.1 forward, rfl⟩
  | fresh now =>
      have before := le_trans kept.1 forward
      exact ⟨before, served_of_stored small (le_trans before prompt)⟩
  | stored now own =>
      have before := le_trans kept.2.1 forward
      exact ⟨kept.1, before, sample, rfl, le_trans before prompt⟩
  | stamped now own expires =>
      obtain ⟨first, before, past, near, -⟩ := kept
      have earlier := le_trans before forward
      exact ⟨first, earlier, by linarith, near, sample, rfl, le_trans earlier prompt⟩
  | idle | timed | sampling | sampled | answered | raised =>
      exact phaseFresh_later kept forward

variable [DecidableEq ι] {i : ι} {s : StatsState ι α}

theorem fresh_enter (fresh : Fresh delay clock s) (forward : clock ≤ later)
    (kept : PhaseFresh delay later s.cache.data phase) :
    Fresh delay later { s with phase := Function.update s.phase i phase } where
  bounded := by
    have bounded := fresh.bounded
    dsimp only
    linarith
  current := fresh.current
  phases j := by
    by_cases own : j = i
    · simpa only [own, Function.update_self] using kept
    · simp only [Function.update_of_ne own]
      exact phaseFresh_later (fresh.phases j) forward

theorem fresh_store {now : Rat} {sample : StatsSample α} (fresh : Fresh delay clock s)
    (forward : clock ≤ later) (small : 0 ≤ delay) (here : s.phase i = .sampled now sample)
    (prompt : later ≤ sample.begun + delay) :
    Fresh delay later
      ⟨{ s.cache with data := some sample }, Function.update s.phase i (.stored now sample)⟩ where
  bounded := by
    have bounded := fresh.bounded
    dsimp only
    linarith
  current other found := by
    obtain rfl := Option.some.inj found
    have bounded := fresh.bounded
    dsimp only
    linarith
  phases j := by
    have own := fresh.phases i
    rw [here] at own
    by_cases same : j = i
    · simp only [same, Function.update_self]
      exact ⟨own.1, le_trans own.2 forward, sample, rfl, by linarith⟩
    · simp only [Function.update_of_ne same]
      exact phaseFresh_stored (fresh.phases j) forward small prompt

/-- A call writes the time for the sample that it has stored. By then the cache may hold a later
sample, which was begun after the call's own was stored, but for `delay`. -/
theorem fresh_stamp {now expires : Rat} {sample : StatsSample α} (fresh : Fresh delay clock s)
    (forward : clock ≤ later) (small : 0 ≤ delay)
    (here : s.phase i = .stamped now sample expires) :
    Fresh delay later ⟨{ s.cache with expires := expires },
      Function.update s.phase i (.answered now (some sample))⟩ := by
  have own := fresh.phases i
  rw [here] at own
  obtain ⟨first, before, past, near, stored, found, since⟩ := own
  constructor
  · dsimp only
    linarith
  · intro other current
    rw [found] at current
    obtain rfl := Option.some.inj current
    dsimp only
    linarith
  · intro j
    by_cases same : j = i
    · simp only [same, Function.update_self]
      exact served_of_stored small (by linarith)
    · simp only [Function.update_of_ne same]
      exact phaseFresh_later (fresh.phases j) forward

theorem fresh_step (fresh : Fresh delay clock s) (e : StatsEvent ι α) (forward : clock ≤ e.now)
    (small : 0 ≤ delay) (prompt : StatsState.PromptIn delay e.now (s.phase e.call)) :
    Fresh delay e.now (s.step e) := by
  have own := fresh.phases e.call
  unfold StatsState.step
  cases phase : s.phase e.call with
  | idle => exact fresh_enter fresh forward (le_refl e.now)
  | timed now =>
      rw [phase] at own
      refine fresh_enter fresh forward ?_
      split
      next found => exact ⟨le_trans own forward, found⟩
      next => exact ⟨le_trans own forward, le_refl e.now⟩
  | found now =>
      rw [phase] at own
      refine fresh_enter fresh forward ?_
      have before := le_trans own.1 forward
      split
      next valid =>
        obtain ⟨sample, found⟩ := Option.isSome_iff_exists.mp own.2
        exact ⟨before, sample, found, lt_of_lt_of_le valid (fresh.current sample found)⟩
      next => exact ⟨before, le_refl e.now⟩
  | fresh now =>
      rw [phase] at own
      exact fresh_enter fresh forward own.2
  | sampling now begun =>
      rw [phase] at own
      dsimp only
      split
      next => exact fresh_enter fresh forward trivial
      next => exact fresh_enter fresh forward ⟨own.1, le_trans own.2 forward⟩
  | sampled now sample =>
      rw [phase] at prompt
      exact fresh_store fresh forward small phase prompt
  | stored now sample =>
      rw [phase] at own prompt
      have near : e.now + systemStatsTtl ≤ sample.begun + delay + systemStatsTtl := by
        have read : e.now ≤ sample.begun + delay := prompt
        linarith
      exact fresh_enter fresh forward
        ⟨own.1, le_trans own.2.1 forward, le_refl _, near, own.2.2⟩
  | stamped now sample expires => exact fresh_stamp fresh forward small phase
  | answered now answer =>
      exact ⟨by linarith [fresh.bounded], fresh.current,
        fun j => phaseFresh_later (fresh.phases j) forward⟩
  | raised =>
      exact ⟨by linarith [fresh.bounded], fresh.current,
        fun j => phaseFresh_later (fresh.phases j) forward⟩

theorem fresh_run (events : List (StatsEvent ι α)) (fresh : Fresh delay clock s)
    (forward : ∀ e ∈ events, clock ≤ e.now) (ordered : events.Pairwise fun d e => d.now ≤ e.now)
    (small : 0 ≤ delay) (prompt : s.PromptAlong delay events) :
    ∃ clock, Fresh delay clock (s.run events) := by
  induction events generalizing s clock with
  | nil => exact ⟨clock, fresh⟩
  | cons e events ih =>
      rw [List.pairwise_cons] at ordered
      have next := fresh_step fresh e (forward e List.mem_cons_self) small prompt.1
      exact ih next ordered.1 ordered.2 prompt.2

end Freshness

/-- However the calls take turns, an answer is a whole sample, and one that was begun less than
the time to live before the call, but for twice the time that a call takes to store and stamp
its sample. -/
theorem stats_answer_fresh {ι α : Type} [DecidableEq ι] (delay : Rat) (small : 0 ≤ delay)
    (events : List (StatsEvent ι α)) (positive : ∀ e ∈ events, 0 ≤ e.now)
    (ordered : events.Pairwise fun d e => d.now ≤ e.now)
    (prompt : StatsState.start.PromptAlong delay events) (i : ι) (now : Rat)
    (answer : Option (StatsSample α))
    (answered : (StatsState.start.run events).phase i = .answered now answer) :
    ∃ sample, answer = some sample ∧ now < sample.begun + systemStatsTtl + 2 * delay := by
  obtain ⟨clock, fresh⟩ := fresh_run events fresh_start positive ordered small prompt
  have own := fresh.phases i
  rw [answered] at own
  exact own

section Alone

variable {ι α : Type}

/-- The clock readings of a call that nothing comes in between, and what it measures. -/
structure StatsCall (α : Type) where
  now : Rat
  begun : Rat
  stamp : Rat
  measured : Option α
  deriving DecidableEq, Repr

def StatsCache.serves (cache : StatsCache α) (now : Rat) : Bool :=
  cache.data.isSome && decide (now < cache.expires)

/-- The answer, unless the call raises, and the cache after it. -/
def getSystemStats (c : StatsCall α) (cache : StatsCache α) :
    Option (StatsSample α) × StatsCache α :=
  if cache.serves c.now then (cache.data, cache)
  else
    match c.measured with
    | none => (none, cache)
    | some stats => (some ⟨stats, c.begun⟩, ⟨some ⟨stats, c.begun⟩, c.stamp + systemStatsTtl⟩)

/-- The steps of a call. The last of them come to nothing where it is done by then. -/
def StatsCall.events (c : StatsCall α) (i : ι) : List (StatsEvent ι α) :=
  [c.now, c.begun, c.begun, c.begun, c.stamp, c.stamp, c.stamp].map fun now => ⟨now, i, c.measured⟩

def StatsPhase.ended (now : Rat) : Option (StatsSample α) → StatsPhase α
  | some sample => .answered now (some sample)
  | none => .raised

variable [DecidableEq ι] {i : ι} {s : StatsState ι α}

theorem run_alone (c : StatsCall α) (idle : s.phase i = .idle) :
    s.run (c.events i) = ⟨(getSystemStats c s.cache).2,
      Function.update s.phase i (.ended c.now (getSystemStats c s.cache).1)⟩ := by
  obtain ⟨⟨data, expires⟩, phase⟩ := s
  dsimp only at idle
  cases data with
  | none =>
      cases measured : c.measured with
      | none =>
          simp [StatsState.run, StatsCall.events, StatsState.step, idle, measured, getSystemStats,
            StatsCache.serves, StatsPhase.ended]
      | some stats =>
          simp [StatsState.run, StatsCall.events, StatsState.step, idle, measured, getSystemStats,
            StatsCache.serves, StatsPhase.ended]
  | some sample =>
      by_cases valid : c.now < expires
      · simp [StatsState.run, StatsCall.events, StatsState.step, idle, valid, getSystemStats,
          StatsCache.serves, StatsPhase.ended]
      · cases measured : c.measured with
        | none =>
            simp [StatsState.run, StatsCall.events, StatsState.step, idle, valid, measured,
              getSystemStats, StatsCache.serves, StatsPhase.ended]
        | some stats =>
            simp [StatsState.run, StatsCall.events, StatsState.step, idle, valid, measured,
              getSystemStats, StatsCache.serves, StatsPhase.ended]

def twoStatsCalls : List (StatsEvent Bool Nat) :=
  (⟨10, 10, 11, some 7⟩ : StatsCall Nat).events false ++
    (⟨12, 12, 12, some 8⟩ : StatsCall Nat).events true

theorem stats_answer_fresh_second : ∃ sample,
    (some ⟨7, 10⟩ : Option (StatsSample Nat)) = some sample ∧
      12 < sample.begun + systemStatsTtl + 2 * 1 :=
  stats_answer_fresh 1 (by decide +kernel) twoStatsCalls (by decide +kernel) (by decide +kernel)
    (by decide +kernel) true 12 _ (by decide +kernel)

end Alone

section Spacing

variable {α : Type}

structure StatsRecord (α : Type) where
  call : StatsCall α
  sampled : Bool
  answer : Option (StatsSample α)
  deriving DecidableEq, Repr

def StatsCache.record (cache : StatsCache α) (c : StatsCall α) : StatsRecord α :=
  ⟨c, !cache.serves c.now && c.measured.isSome, (getSystemStats c cache).1⟩

def statsRun (calls : List (StatsCall α)) : StatsCache α × List (StatsRecord α) :=
  calls.foldl (fun state c => ((getSystemStats c state.1).2, state.2 ++ [state.1.record c]))
    (.empty, [])

def lastSampled (records : List (StatsRecord α)) : Option (StatsRecord α) :=
  (records.filter (·.sampled)).getLast?

theorem statsRun_concat (calls : List (StatsCall α)) (c : StatsCall α) :
    statsRun (calls ++ [c]) = ((getSystemStats c (statsRun calls).1).2,
      (statsRun calls).2 ++ [(statsRun calls).1.record c]) := by
  rw [statsRun, List.foldl_append]
  rfl

structure Held (cache : StatsCache α) (records : List (StatsRecord α)) : Prop where
  data : cache.data = (lastSampled records).bind StatsRecord.answer
  expires : ∀ b, lastSampled records = some b → cache.expires = b.call.stamp + systemStatsTtl

theorem getSystemStats_cases (cache : StatsCache α) (c : StatsCall α) :
    ((cache.record c).sampled = false ∧ (getSystemStats c cache).2 = cache ∧
        ((getSystemStats c cache).1 = none ∨ (getSystemStats c cache).1 = cache.data)) ∨
      ∃ sample, cache.serves c.now = false ∧ (cache.record c).sampled = true ∧
        getSystemStats c cache = (some sample, ⟨some sample, c.stamp + systemStatsTtl⟩) := by
  cases serves : cache.serves c.now with
  | true =>
      left
      have result : getSystemStats c cache = (cache.data, cache) := if_pos serves
      exact ⟨by simp [StatsCache.record, serves], by rw [result], .inr (by rw [result])⟩
  | false =>
      cases measured : c.measured with
      | none =>
          left
          have result : getSystemStats c cache = (none, cache) := by
            simp [getSystemStats, serves, measured]
          exact ⟨by simp [StatsCache.record, measured], by rw [result], .inl (by rw [result])⟩
      | some stats =>
          right
          exact ⟨⟨stats, c.begun⟩, rfl, by simp [StatsCache.record, serves, measured],
            by simp [getSystemStats, serves, measured]⟩

theorem lastSampled_concat (records : List (StatsRecord α)) (r : StatsRecord α) :
    lastSampled (records ++ [r]) = if r.sampled then some r else lastSampled records := by
  rw [lastSampled, List.filter_append, List.filter_cons]
  cases r.sampled with
  | true => exact List.getLast?_concat
  | false => exact congrArg List.getLast? (List.append_nil _)

theorem held_run (calls : List (StatsCall α)) : Held (statsRun calls).1 (statsRun calls).2 := by
  induction calls using List.reverseRecOn with
  | nil => exact ⟨rfl, fun _ none => by cases none⟩
  | append_singleton calls c ih =>
      have last := lastSampled_concat (statsRun calls).2 ((statsRun calls).1.record c)
      rw [statsRun_concat]
      rcases getSystemStats_cases (statsRun calls).1 c with
        ⟨unsampled, kept, -⟩ | ⟨sample, -, sampled, result⟩
      · rw [unsampled, if_neg Bool.false_ne_true] at last
        rw [kept]
        exact ⟨by rw [last]; exact ih.data, by rw [last]; exact ih.expires⟩
      · rw [sampled, if_pos rfl] at last
        have answer : ((statsRun calls).1.record c).answer = some sample := congrArg Prod.fst result
        rw [result]
        constructor
        · rw [last, Option.bind_some, answer]
        · intro b found
          rw [last] at found
          obtain rfl := Option.some.inj found
          rfl

theorem expired_of_unserved {cache : StatsCache α} {records : List (StatsRecord α)} {now : Rat}
    (held : Held cache records) (unserved : cache.serves now = false) {b : StatsRecord α}
    (last : lastSampled records = some b) (answered : b.answer.isSome = true) :
    b.call.stamp + systemStatsTtl ≤ now := by
  have data := held.data
  rw [last, Option.bind_some] at data
  rw [StatsCache.serves, data, answered, Bool.true_and, decide_eq_false_iff_not, not_lt,
    held.expires b last] at unserved
  exact unserved

theorem sampled_answers (calls : List (StatsCall α)) :
    ∀ b ∈ (statsRun calls).2, b.call ∈ calls ∧ (b.sampled = true → b.answer.isSome = true) := by
  induction calls using List.reverseRecOn with
  | nil =>
      intro b member
      cases member
  | append_singleton calls c ih =>
      rw [statsRun_concat]
      intro b member
      rcases List.mem_append.mp member with old | new
      · exact ⟨List.mem_append_left _ (ih b old).1, (ih b old).2⟩
      · rw [List.mem_singleton.mp new]
        refine ⟨List.mem_append_right _ List.mem_cons_self, fun sampled => ?_⟩
        rcases getSystemStats_cases (statsRun calls).1 c with ⟨unsampled, -⟩ | ⟨sample, -, -, result⟩
        · rw [sampled] at unsampled
          cases unsampled
        · rw [StatsCache.record, result]
          rfl

theorem samples_spaced (calls : List (StatsCall α)) (timely : ∀ c ∈ calls, c.now ≤ c.stamp) :
    ((statsRun calls).2.filter (·.sampled)).Pairwise fun b c =>
      b.call.stamp + systemStatsTtl ≤ c.call.now := by
  induction calls using List.reverseRecOn with
  | nil => exact List.Pairwise.nil
  | append_singleton calls c ih =>
      have spaced := ih fun d member => timely d (List.mem_append_left _ member)
      rw [statsRun_concat, List.filter_append, List.filter_cons]
      rcases getSystemStats_cases (statsRun calls).1 c with
        ⟨unsampled, -⟩ | ⟨sample, unserved, sampled, -⟩
      · rw [unsampled, if_neg Bool.false_ne_true, List.filter_nil, List.append_nil]
        exact spaced
      · rw [sampled, if_pos rfl, List.filter_nil, List.pairwise_append]
        refine ⟨spaced, List.pairwise_singleton _ _, ?_⟩
        intro b member d new
        rw [List.mem_singleton.mp new]
        -- the call comes after the last sample has expired, and that one after all before it
        rcases List.eq_nil_or_concat ((statsRun calls).2.filter (·.sampled)) with
          none | ⟨front, last, whole⟩
        · rw [none] at member
          cases member
        · rw [List.concat_eq_append] at whole
          have found : lastSampled (statsRun calls).2 = some last := by
            rw [lastSampled, whole, List.getLast?_concat]
          have inside : last ∈ (statsRun calls).2.filter (·.sampled) := by
            rw [whole]
            exact List.mem_append_right _ List.mem_cons_self
          obtain ⟨member', last_sampled⟩ := List.mem_filter.mp inside
          have known := sampled_answers calls last member'
          have expired := expired_of_unserved (held_run calls) unserved found
            (known.2 last_sampled)
          rw [whole] at member spaced
          rcases List.mem_append.mp member with earlier | same
          · have apart := (List.pairwise_append.mp spaced).2.2 b earlier last List.mem_cons_self
            have order := timely last.call (List.mem_append_left _ known.1)
            have positive := systemStatsTtl_pos
            calc
              b.call.stamp + systemStatsTtl ≤ last.call.now := apart
              _ ≤ last.call.stamp + systemStatsTtl := by linarith
              _ ≤ c.now := expired
          · rw [List.mem_singleton.mp same]
            exact expired

theorem answers_last (calls : List (StatsCall α)) :
    ∀ front r back, (statsRun calls).2 = front ++ r :: back → r.answer.isSome = true →
      (lastSampled (front ++ [r])).bind StatsRecord.answer = r.answer := by
  induction calls using List.reverseRecOn with
  | nil =>
      intro front r back none
      simp [statsRun] at none
  | append_singleton calls c ih =>
      intro front r back whole some
      rw [statsRun_concat] at whole
      rcases List.eq_nil_or_concat back with rfl | ⟨before, last, rfl⟩
      · obtain ⟨rfl, new⟩ := List.append_inj' whole rfl
        obtain rfl : (statsRun calls).1.record c = r := List.head_eq_of_cons_eq new
        rw [lastSampled_concat]
        rcases getSystemStats_cases (statsRun calls).1 c with
          ⟨unsampled, -, answer⟩ | ⟨sample, -, sampled, -⟩
        · rw [unsampled, if_neg Bool.false_ne_true, ← (held_run calls).data]
          rcases answer with raised | served
          · rw [StatsCache.record, raised] at some
            cases some
          · exact served.symm
        · rw [sampled, if_pos rfl]
          rfl
      · rw [List.concat_eq_append, ← List.cons_append, ← List.append_assoc] at whole
        obtain ⟨earlier, -⟩ := List.append_inj' whole rfl
        exact ih front r before earlier some

end Spacing

/-- Calls one after the other sample at most once in the time to live, and each of them answers
with the sample of the last one that did. -/
theorem stats_sampled_once_per_ttl {α : Type} (calls : List (StatsCall α))
    (timely : ∀ c ∈ calls, c.now ≤ c.stamp) :
    ((statsRun calls).2.filter (·.sampled)).Pairwise
        (fun b c => b.call.stamp + systemStatsTtl ≤ c.call.now) ∧
      ∀ front r back, (statsRun calls).2 = front ++ r :: back → r.answer.isSome = true →
        (lastSampled (front ++ [r])).bind StatsRecord.answer = r.answer :=
  ⟨samples_spaced calls timely, answers_last calls⟩

def threeStatsCalls : List (StatsCall Nat) :=
  [⟨10, 10, 11, some 7⟩, ⟨12, 12, 12, some 8⟩, ⟨13, 13, 14, some 9⟩]

theorem stats_sampled_once_per_ttl_three :
    ((statsRun threeStatsCalls).2.map fun r => (r.sampled, r.answer.map StatsSample.stats)) =
        [(true, some 7), (false, some 7), (true, some 9)] ∧
      ((statsRun threeStatsCalls).2.filter (·.sampled)).Pairwise fun b c =>
        b.call.stamp + systemStatsTtl ≤ c.call.now :=
  ⟨by decide +kernel, (stats_sampled_once_per_ttl threeStatsCalls (by decide +kernel)).1⟩

end SmolNas.App
