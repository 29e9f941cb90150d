import Mathlib.Logic.Function.Basic
import SmolNas.Py.Str

/-! `get_tailscale_ip`: the address of the machine, or why there is none, is asked for once and
kept. Calls may take their steps in turns. -/

namespace SmolNas.App

open Py

section Address

inductive TailscaleOutcome where
  | printed (out : Str)
  | notFound
  | failed
  | raised
  deriving DecidableEq, Repr

def tailscaleText (production : Bool) (outcome : TailscaleOutcome) : Str :=
  if production = false then "100.1.2.3 (Mock)".toList
  else
    match outcome with
    | .printed out => if strip out = [] then "Not Connected".toList else strip out
    | .notFound => "Tailscale not found".toList
    | .failed => "Error fetching IP".toList
    | .raised => "Unknown".toList

inductive TailscalePhase where
  | idle
  | found
  | asking
  | fetched (text : Str)
  | stored
  | answered (answer : Option Str)
  deriving DecidableEq, Repr

/-- The call has not found an address and has not stored one yet. -/
def TailscalePhase.isAsking : TailscalePhase → Bool
  | asking | fetched _ => true
  | _ => false

structure TailscaleEvent (ι : Type) where
  call : ι
  outcome : TailscaleOutcome

structure TailscaleState (ι : Type) where
  /-- `TAILSCALE_IP` -/
  tailscaleIp : Option Str
  phase : ι → TailscalePhase

namespace TailscaleState

variable {ι : Type} [DecidableEq ι]

def start : TailscaleState ι := ⟨none, fun _ => .idle⟩

def step (production : Bool) (s : TailscaleState ι) (e : TailscaleEvent ι) : TailscaleState ι :=
  let enter (phase : TailscalePhase) : TailscaleState ι :=
    { s with phase := Function.update s.phase e.call phase }
  match s.phase e.call with
  | .idle => enter (if s.tailscaleIp.getD [] = [] then .asking else .found)
  | .found => enter (.answered s.tailscaleIp)
  | .asking => enter (.fetched (tailscaleText production e.outcome))
  | .fetched text => { enter .stored with tailscaleIp := some text }
  | .stored => enter (.answered s.tailscaleIp)
  | .answered _ => s

def run (production : Bool) (s : TailscaleState ι) (events : List (TailscaleEvent ι)) :
    TailscaleState ι := events.foldl (step production) s

end TailscaleState

end Address

section Kept

variable {ι : Type} {production : Bool}

theorem tailscaleText_ne_nil (production : Bool) (outcome : TailscaleOutcome) :
    tailscaleText production outcome ≠ [] := by
  unfold tailscaleText
  split
  · decide
  · cases outcome with
    | printed out =>
        dsimp only
        split
        · decide
        next some => exact some
    | notFound => decide
    | failed => decide
    | raised => decide

def IsTailscaleText (production : Bool) (text : Str) : Prop :=
  ∃ outcome, text = tailscaleText production outcome

def PhaseNamed (production : Bool) (ip : Option Str) : TailscalePhase → Prop
  | .idle | .asking => True
  | .found | .stored => ip.isSome = true
  | .fetched text => IsTailscaleText production text
  | .answered answer => ∃ text, answer = some text ∧ IsTailscaleText production text

structure Named (production : Bool) (s : TailscaleState ι) : Prop where
  texts : ∀ text, s.tailscaleIp = some text → IsTailscaleText production text
  phases : ∀ i, PhaseNamed production s.tailscaleIp (s.phase i)

variable {s : TailscaleState ι} {i : ι} {phase : TailscalePhase}

theorem named_answer (named : Named production s) (known : s.tailscaleIp.isSome = true) :
    ∃ text, s.tailscaleIp = some text ∧ IsTailscaleText production text := by
  obtain ⟨text, stored⟩ := Option.isSome_iff_exists.mp known
  exact ⟨text, stored, named.texts text stored⟩

variable [DecidableEq ι]

theorem named_enter (named : Named production s)
    (own : PhaseNamed production s.tailscaleIp phase) :
    Named production { s with phase := Function.update s.phase i phase } where
  texts := named.texts
  phases j := by
    by_cases same : j = i
    · simpa only [same, Function.update_self] using own
    · simpa only [Function.update_of_ne same] using named.phases j

theorem phaseNamed_store {ip : Option Str} {text : Str} (named : PhaseNamed production ip phase) :
    PhaseNamed production (some text) phase := by
  cases phase with
  | idle | asking => trivial
  | found | stored => rfl
  | fetched other => exact named
  | answered answer => exact named

theorem named_step (named : Named production s) (e : TailscaleEvent ι) :
    Named production (s.step production e) := by
  have own := named.phases e.call
  unfold TailscaleState.step
  cases phase : s.phase e.call with
  | idle =>
      refine named_enter named ?_
      split
      next => trivial
      next stored =>
        cases ip : s.tailscaleIp with
        | none =>
            rw [ip] at stored
            exact absurd rfl stored
        | some text => rfl
  | found =>
      rw [phase] at own
      exact named_enter named (named_answer named own)
  | asking => exact named_enter named ⟨e.outcome, rfl⟩
  | fetched text =>
      rw [phase] at own
      constructor
      · intro other stored
        rw [← Option.some.inj stored]
        exact own
      · intro j
        by_cases same : j = e.call
        · simp only [same, Function.update_self]
          rfl
        · simp only [Function.update_of_ne same]
          exact phaseNamed_store (named.phases j)
  | stored =>
      rw [phase] at own
      exact named_enter named (named_answer named own)
  | answered answer => exact named

theorem named_run (events : List (TailscaleEvent ι)) (named : Named production s) :
    Named production (s.run production events) := by
  induction events generalizing s with
  | nil => exact named
  | cons e events ih => exact ih (named_step named e)

/-- The text is there and no call is going to store another one. -/
structure Settled (text : Str) (s : TailscaleState ι) : Prop where
  known : s.tailscaleIp = some text
  nonempty : text ≠ []
  quiet : ∀ j, (s.phase j).isAsking = false

def IsServed (text : Str) (phase : TailscalePhase) : Prop :=
  phase = .idle ∨ phase = .found ∨ phase = .answered (some text)

variable {text : Str}

theorem settled_enter (settled : Settled text s) (quiet : phase.isAsking = false) :
    Settled text { s with phase := Function.update s.phase i phase } where
  known := settled.known
  nonempty := settled.nonempty
  quiet j := by
    by_cases same : j = i
    · simpa only [same, Function.update_self] using quiet
    · simpa only [Function.update_of_ne same] using settled.quiet j

theorem settled_step (settled : Settled text s) (e : TailscaleEvent ι) :
    Settled text (s.step production e) ∧
      ∀ j, IsServed text (s.phase j) → IsServed text ((s.step production e).phase j) := by
  have stored : ¬s.tailscaleIp.getD [] = [] := by
    rw [settled.known]
    exact settled.nonempty
  have moves {next : TailscalePhase} (served : IsServed text (s.phase e.call) → IsServed text next) :
      ∀ j, IsServed text (s.phase j) →
        IsServed text (Function.update s.phase e.call next j) := by
    intro j before
    by_cases same : j = e.call
    · rw [same, Function.update_self]
      rw [same] at before
      exact served before
    · rwa [Function.update_of_ne same]
  have quiet := settled.quiet e.call
  unfold TailscaleState.step
  cases phase : s.phase e.call with
  | idle =>
      dsimp only
      rw [if_neg stored]
      exact ⟨settled_enter settled rfl, moves fun _ => .inr (.inl rfl)⟩
  | found =>
      exact ⟨settled_enter settled rfl, moves fun _ => .inr (.inr (by rw [settled.known]))⟩
  | asking =>
      rw [phase] at quiet
      cases quiet
  | fetched other =>
      rw [phase] at quiet
      cases quiet
  | stored =>
      exact ⟨settled_enter settled rfl, moves fun _ => .inr (.inr (by rw [settled.known]))⟩
  | answered answer => exact ⟨settled, fun _ served => served⟩

theorem settled_run (events : List (TailscaleEvent ι)) (settled : Settled text s) :
    Settled text (s.run production events) ∧
      ∀ j, IsServed text (s.phase j) → IsServed text ((s.run production events).phase j) := by
  induction events generalizing s with
  | nil => exact ⟨settled, fun _ served => served⟩
  | cons e events ih =>
      obtain ⟨next, served⟩ := @settled_step ι production s _ text settled e
      obtain ⟨last, rest⟩ := ih next
      exact ⟨last, fun j before => rest j (served j before)⟩

end Kept

/-- However calls take turns, an answer is a text of the program, never an empty one. Once a text
is stored and no call is about to store another, it stays for good, a failure as well as an
address, and no call that begins then asks the program again. -/
theorem tailscale_ip_kept {ι : Type} [DecidableEq ι] (production : Bool)
    (events later : List (TailscaleEvent ι)) :
    let s := TailscaleState.start.run production events
    (∀ i answer, s.phase i = .answered answer → ∃ outcome,
        answer = some (tailscaleText production outcome) ∧ tailscaleText production outcome ≠ []) ∧
      ∀ text, s.tailscaleIp = some text → (∀ i, (s.phase i).isAsking = false) →
        (s.run production later).tailscaleIp = some text ∧
          ∀ i, s.phase i = .idle → IsServed text ((s.run production later).phase i) := by
  intro s
  have start : Named production (TailscaleState.start : TailscaleState ι) :=
    ⟨fun _ stored => (by cases stored), fun _ => trivial⟩
  have named := named_run events start
  constructor
  · intro i answer answered
    have own := named.phases i
    rw [answered] at own
    obtain ⟨text, given, outcome, same⟩ := own
    exact ⟨outcome, by rw [given, same], tailscaleText_ne_nil production outcome⟩
  · intro text known quiet
    obtain ⟨outcome, same⟩ := named.texts text known
    have settled : Settled text s :=
      ⟨known, by rw [same]; exact tailscaleText_ne_nil production outcome, quiet⟩
    obtain ⟨last, served⟩ := @settled_run ι production s _ text later settled
    exact ⟨last.known, fun i idle => served i (.inl idle)⟩

def tailscaleCalls : List (TailscaleEvent (Fin 3)) :=
  [⟨0, .raised⟩, ⟨1, .raised⟩, ⟨0, .failed⟩, ⟨1, .printed "100.64.0.1\n".toList⟩, ⟨1, .raised⟩,
    ⟨1, .raised⟩, ⟨0, .raised⟩, ⟨0, .raised⟩]

theorem tailscale_ip_kept_failure : IsServed "Error fetching IP".toList
    (((TailscaleState.start.run true tailscaleCalls).run true
      [⟨2, .printed "100.64.0.1\n".toList⟩, ⟨2, .raised⟩]).phase 2) :=
  ((tailscale_ip_kept true tailscaleCalls _).2 "Error fetching IP".toList (by decide +kernel)
    (by decide +kernel)).2 2 (by decide +kernel)

end SmolNas.App
