import Mathlib.Data.List.Basic

/-! Servers whose sessions live in tokens that the clients keep.

A token carries the session it was issued with and the list of what was served
on the way to it. A client may present no token, or any token ever issued. -/

namespace SmolNas.Lib

structure Token (S H : Type) where
  session : S
  history : List H
  deriving DecidableEq, Repr

namespace Replay

variable {W S H E : Type} [DecidableEq S]

/-- The server: shared state, the session of the presented token and a request
give the new shared state, the new session and an entry of the history. -/
structure Server (W S H E : Type) where
  start : S
  serve : W → S → E → W × S × H

structure World (W S H : Type) where
  shared : W
  issued : List (Token S H)

variable (server : Server W S H E)

/-- The token of a client that presents the `i`th one issued, or none. -/
def present (w : World W S H) : Option Nat → Token S H
  | none => ⟨server.start, []⟩
  | some i => w.issued.getD i ⟨server.start, []⟩

/-- A token is issued when the session was modified. -/
def step (w : World W S H) (request : Option Nat × E) : World W S H :=
  let token := present server w request.1
  let served := server.serve w.shared token.session request.2
  ⟨served.1,
    if served.2.1 = token.session then w.issued
    else w.issued ++ [⟨served.2.1, token.history ++ [served.2.2]⟩]⟩

def run (w : World W S H) (requests : List (Option Nat × E)) : World W S H :=
  requests.foldl (step server) w

def entries (w : World W S H) : List (Option Nat × E) → List H
  | [] => []
  | request :: requests =>
      (server.serve w.shared (present server w request.1).session request.2).2.2 ::
        entries (step server w request) requests

variable {server}

theorem run_issued (w : World W S H) (requests : List (Option Nat × E)) :
    w.issued <+: (run server w requests).issued := by
  induction requests generalizing w with
  | nil => exact List.prefix_refl w.issued
  | cons request requests ih =>
      have first : w.issued <+: (step server w request).issued := by
        simp only [step]
        split
        · exact List.prefix_refl w.issued
        · exact List.prefix_append w.issued _
      exact first.trans (ih (step server w request))

theorem present_run (w : World W S H) (requests : List (Option Nat × E)) (i : Nat)
    (issued : i < w.issued.length) :
    present server (run server w requests) (some i) = present server w (some i) := by
  rcases (run_issued w requests : _ <+: (run server w requests).issued) with ⟨later, whole⟩
  simp only [present, List.getD_eq_getElem?_getD, ← whole, List.getElem?_append_left issued]

/-- A property of tokens that every request hands on holds of every token that
can be presented after any run. -/
theorem run_present {P : Token S H → Prop} (start : P ⟨server.start, []⟩)
    (handed : ∀ shared (token : Token S H) request, P token →
      P ⟨(server.serve shared token.session request).2.1,
        token.history ++ [(server.serve shared token.session request).2.2]⟩)
    (w : World W S H) (issued : ∀ token ∈ w.issued, P token)
    (requests : List (Option Nat × E)) (client : Option Nat) :
    P (present server (run server w requests) client) := by
  have presented (w : World W S H) (issued : ∀ token ∈ w.issued, P token)
      (client : Option Nat) : P (present server w client) := by
    cases client with
    | none => exact start
    | some i =>
        rw [present, List.getD_eq_getElem?_getD]
        cases found : w.issued[i]? with
        | none => exact start
        | some token => exact issued token (List.mem_of_getElem? found)
  induction requests generalizing w with
  | nil => exact presented w issued client
  | cons request requests ih =>
      refine ih (step server w request) ?_
      intro token member
      simp only [step] at member
      split at member
      · exact issued token member
      · rcases List.mem_append.mp member with old | new
        · exact issued token old
        · rw [List.mem_singleton] at new
          rw [new]
          exact handed w.shared _ request.2 (presented w issued request.1)

omit [DecidableEq S] in
theorem present_issued {P : Token S H → Prop} (start : P ⟨server.start, []⟩) {w : World W S H}
    (issued : ∀ token ∈ w.issued, P token) (client : Option Nat) :
    P (present server w client) := by
  cases client with
  | none => exact start
  | some i =>
      rw [present, List.getD_eq_getElem?_getD]
      cases found : w.issued[i]? with
      | none => exact start
      | some token => exact issued token (List.mem_of_getElem? found)

theorem step_issued {w : World W S H} {request : Option Nat × E} {token : Token S H}
    (member : token ∈ (step server w request).issued) :
    token ∈ w.issued ∨ token.session =
      (server.serve w.shared (present server w request.1).session request.2).2.1 := by
  simp only [step] at member
  split at member
  · exact .inl member
  · rcases List.mem_append.mp member with old | new
    · exact .inl old
    · rw [List.mem_singleton.mp new]
      exact .inr rfl

/-- An invariant of the world and of what was served, where every request of the run is
of a kind that keeps it. -/
theorem run_served {I : List H → World W S H → Prop} {kind : E → Prop}
    (handed : ∀ log w request, kind request.2 → I log w →
      I (log ++ [(server.serve w.shared (present server w request.1).session request.2).2.2])
        (step server w request))
    {requests : List (Option Nat × E)} (kinds : ∀ request ∈ requests, kind request.2)
    {log : List H} {w : World W S H} (holds : I log w) :
    I (log ++ entries server w requests) (run server w requests) := by
  induction requests generalizing log w with
  | nil =>
      rw [entries, List.append_nil]
      exact holds
  | cons request requests ih =>
      have first := handed log w request (kinds request List.mem_cons_self) holds
      have rest := ih (fun other member => kinds other (List.mem_cons_of_mem request member)) first
      rw [List.append_assoc, List.singleton_append] at rest
      exact rest

end Replay

end SmolNas.Lib
