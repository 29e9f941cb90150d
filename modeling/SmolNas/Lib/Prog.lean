import Mathlib.Logic.Basic

/-! Programs that ask the world questions and go on with its answers.

A run is fixed by the stream of answers; what a run did is the list of its
questions. `All` states a property of the questions of every run at once. -/

namespace SmolNas.Lib

inductive Prog (Q R A : Type) where
  | ret (a : A)
  | ask (q : Q) (next : R → Prog Q R A)

namespace Prog

variable {Q R A B : Type}

def bind : Prog Q R A → (A → Prog Q R B) → Prog Q R B
  | ret a, f => f a
  | ask q next, f => ask q fun r => (next r).bind f

instance : Monad (Prog Q R) where
  pure := ret
  bind := bind

def call (q : Q) : Prog Q R R := ask q ret

/-- The questions and the result of the run with these answers. -/
def exec : Prog Q R A → (Nat → R) → List Q × A
  | ret a, _ => ([], a)
  | ask q next, answer =>
      let rest := (next (answer 0)).exec fun i => answer (i + 1)
      (q :: rest.1, rest.2)

theorem exec_bind (p : Prog Q R A) (f : A → Prog Q R B) (answer : Nat → R) :
    (p.bind f).exec answer =
      ((p.exec answer).1 ++
          ((f (p.exec answer).2).exec fun i => answer (i + (p.exec answer).1.length)).1,
        ((f (p.exec answer).2).exec fun i => answer (i + (p.exec answer).1.length)).2) := by
  induction p generalizing answer with
  | ret a => rfl
  | ask q next ih =>
      simp only [bind, exec, ih, List.length_cons, List.cons_append]
      rfl

def All (P : Q → Prop) : Prog Q R A → Prop
  | ret _ => True
  | ask q next => P q ∧ ∀ r, (next r).All P

theorem all_bind {P : Q → Prop} {p : Prog Q R A} {f : A → Prog Q R B}
    (first : p.All P) (second : ∀ a, (f a).All P) : (p.bind f).All P := by
  induction p with
  | ret a => exact second a
  | ask q next ih => exact ⟨first.1, fun r => ih r (first.2 r)⟩

theorem all_exec {P : Q → Prop} {p : Prog Q R A} (all : p.All P) (answer : Nat → R) :
    ∀ q ∈ (p.exec answer).1, P q := by
  induction p generalizing answer with
  | ret a => simp [exec]
  | ask q next ih =>
      intro other member
      simp only [exec, List.mem_cons] at member
      rcases member with rfl | member
      · exact all.1
      · exact ih (answer 0) (all.2 (answer 0)) _ other member

/-- The result of a run and the state of the world after it. A question is answered with a `W`,
of which the program sees an `R` and which changes the state. -/
def runIn {S W : Type} (answer : W → R) (change : S → Q → W → S) :
    Prog Q R A → (Nat → W) → S → A × S
  | ret a, _, state => (a, state)
  | ask q next, world, state =>
      (next (answer (world 0))).runIn answer change (fun i => world (i + 1))
        (change state q (world 0))

theorem runIn_keeps {S W : Type} {answer : W → R} {change : S → Q → W → S} {p : Prog Q R A}
    (quiet : p.All fun q => ∀ state w, change state q w = state) (world : Nat → W) (state : S) :
    (p.runIn answer change world state).2 = state := by
  induction p generalizing world state with
  | ret a => rfl
  | ask q next ih =>
      rw [runIn, quiet.1]
      exact ih (answer (world 0)) (quiet.2 _) _ state

theorem runIn_first {S W : Type} {answer : W → R} {change : S → Q → W → S} {q : Q}
    {next : R → Prog Q R A}
    (quiet : ∀ r, (next r).All fun q => ∀ state w, change state q w = state) (world : Nat → W)
    (state : S) :
    ((ask q next).runIn answer change world state).2 = change state q (world 0) := by
  rw [runIn]
  exact runIn_keeps (quiet _) _ _

/-- The program may end with this result and in this state, in a world that takes such steps. -/
inductive Ends {S : Type} (step : S → Q → R → S → Prop) : Prog Q R A → S → A → S → Prop where
  | ret {a : A} {s : S} : Ends step (.ret a) s a s
  | ask {q : Q} {next : R → Prog Q R A} {s s' s'' : S} {r : R} {a : A} (answered : step s q r s')
      (rest : Ends step (next r) s' a s'') : Ends step (.ask q next) s a s''

variable {S : Type} {step : S → Q → R → S → Prop}

theorem ends_ret {a b : A} {s s' : S} (ends : (ret a : Prog Q R A).Ends step s b s') :
    b = a ∧ s' = s := by
  cases ends with
  | ret => exact ⟨rfl, rfl⟩

theorem ends_ask {q : Q} {next : R → Prog Q R A} {s s'' : S} {a : A}
    (ends : (ask q next).Ends step s a s'') :
    ∃ r s', step s q r s' ∧ (next r).Ends step s' a s'' := by
  cases ends with
  | ask answered rest => exact ⟨_, _, answered, rest⟩

theorem ends_bind {p : Prog Q R A} {f : A → Prog Q R B} {s s'' : S} {b : B}
    (ends : (p.bind f).Ends step s b s'') :
    ∃ a s', p.Ends step s a s' ∧ (f a).Ends step s' b s'' := by
  induction p generalizing s with
  | ret a => exact ⟨a, s, .ret, ends⟩
  | ask q next ih =>
      rcases ends_ask ends with ⟨r, s', answered, rest⟩
      rcases ih r rest with ⟨a, mid, first, second⟩
      exact ⟨a, mid, .ask answered first, second⟩

/-- The result of a run in a world that answers from its state, and the state after it. -/
def answeredBy (respond : S → Q → R × S) : Prog Q R A → S → A × S
  | ret a, s => (a, s)
  | ask q next, s => (next (respond s q).1).answeredBy respond (respond s q).2

theorem ends_answeredBy {respond : S → Q → R × S} (p : Prog Q R A) (s : S) :
    p.Ends (fun s q r s' => respond s q = (r, s')) s (p.answeredBy respond s).1
      (p.answeredBy respond s).2 := by
  induction p generalizing s with
  | ret a => exact .ret
  | ask q next ih => exact .ask rfl (ih _ _)

end Prog

section Along

variable {S E : Type}

inductive Along (step : S → E → S → Prop) : S → List E → S → Prop where
  | nil {s : S} : Along step s [] s
  | cons {s s' s'' : S} {e : E} {log : List E} (first : step s e s')
      (rest : Along step s' log s'') : Along step s (e :: log) s''

theorem Along.mono {step step' : S → E → S → Prop} {s s' : S} {log : List E}
    (along : Along step s log s') (weaker : ∀ s s', ∀ e ∈ log, step s e s' → step' s e s') :
    Along step' s log s' := by
  induction along with
  | nil => exact .nil
  | cons first rest ih =>
      exact .cons (weaker _ _ _ List.mem_cons_self first)
        (ih fun s s' e member => weaker s s' e (List.mem_cons_of_mem _ member))

theorem Along.preserves {step : S → E → S → Prop} {I : S → Prop} {s s' : S} {log : List E}
    (along : Along step s log s') (kept : ∀ s s', ∀ e ∈ log, step s e s' → I s → I s')
    (start : I s) : I s' := by
  induction along with
  | nil => exact start
  | cons first rest ih =>
      exact ih (fun s s' e member => kept s s' e (List.mem_cons_of_mem _ member))
        (kept _ _ _ List.mem_cons_self first start)

end Along

end SmolNas.Lib
