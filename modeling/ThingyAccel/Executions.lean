import Mathlib.Data.List.Induction
import Mathlib.Data.Option.Basic

/-!
Executions of a transition function whose actions are chosen from outside: the states
it reaches, the invariant rule, and the state after a list of actions. A trace of
events grows at its end.
-/
namespace ThingyAccel.Executions

universe u v
variable {State : Type u} {Action : Type v}
variable (step : State → Action → Option State)

inductive Reaches (start : State) : State → Prop where
  | start : Reaches start start
  | step {state next : State} {action : Action} (before : Reaches start state)
      (moves : step state action = some next) : Reaches start next

theorem reaches_invariant {step : State → Action → Option State} {start state : State}
    {invariant : State → Prop} (begins : invariant start)
    (kept : ∀ state action next, invariant state → step state action = some next → invariant next)
    (reached : Reaches step start state) : invariant state := by
  induction reached with
  | start => exact begins
  | step before moves ih => exact kept _ _ _ ih moves

inductive Follows (permitted : State → Action → Prop) (start : State) : State → Prop where
  | start : Follows permitted start start
  | step {state next : State} {action : Action} (before : Follows permitted start state)
      (fair : permitted state action) (moves : step state action = some next) :
      Follows permitted start next

theorem follows_invariant {step : State → Action → Option State} {permitted : State → Action → Prop}
    {start state : State} {invariant : State → Prop} (begins : invariant start)
    (kept : ∀ state action next, invariant state → permitted state action →
      step state action = some next → invariant next)
    (followed : Follows step permitted start state) : invariant state := by
  induction followed with
  | start => exact begins
  | step before fair moves ih => exact kept _ _ _ ih fair moves

theorem follows_weaken {step : State → Action → Option State}
    {permitted allowed : State → Action → Prop} {start state : State}
    (weaker : ∀ state action, permitted state action → allowed state action)
    (followed : Follows step permitted start state) : Follows step allowed start state := by
  induction followed with
  | start => exact .start
  | step before fair moves ih => exact .step ih (weaker _ _ fair) moves

/-- When every step is seen as a step of another transition function, or not at all, every
state that is reached is seen as one that is reached there. -/
theorem reaches_seen {Seen : Type u} {Other : Type v} {step : State → Action → Option State}
    {other : Seen → Other → Option Seen} {view : State → Seen} {start state : State}
    (simulates : ∀ state action next, step state action = some next →
      view next = view state ∨ ∃ action', other (view state) action' = some (view next))
    (reached : Reaches step start state) : Reaches other (view start) (view state) := by
  induction reached with
  | start => exact .start
  | step before moves ih =>
      rcases simulates _ _ _ moves with same | ⟨action, seen⟩
      · rwa [same]
      · exact .step ih seen

/-- Every execution by permitted steps meets the goal within a number of them, and none is
stuck before. Idle steps may come in between; they are not counted. -/
def Within (permitted idle : State → Action → Prop) (goal : State → Prop) : Nat → State → Prop
  | 0, state => goal state
  | bound + 1, state => goal state ∨ ∀ later, Follows step idle state later →
      (∃ action next, permitted later action ∧ step later action = some next) ∧
        ∀ action next, permitted later action → step later action = some next →
          Within permitted idle goal bound next

section Goals

variable {step : State → Action → Option State} {permitted idle : State → Action → Prop}
  {goal : State → Prop}

theorem within_mono {bound more : Nat} {state : State}
    (within' : Within step permitted idle goal bound state) (order : bound ≤ more) :
    Within step permitted idle goal more state := by
  induction more generalizing bound state with
  | zero =>
      cases Nat.le_zero.mp order
      exact within'
  | succ more ih =>
      cases bound with
      | zero => exact Or.inl within'
      | succ bound =>
          rcases within' with met | open'
          · exact Or.inl met
          · right
            intro later waits
            obtain ⟨possible, every⟩ := open' later waits
            exact ⟨possible, fun action next fair moves =>
              ih (every action next fair moves) (Nat.le_of_succ_le_succ order)⟩

/-- A goal is met within its rank, when short of it a permitted step is possible, every
permitted step leads to a smaller rank, and idle steps keep the rank and stay short of it. -/
theorem within_rank {Ranked : Nat → State → Prop}
    (possible : ∀ rank state, Ranked rank state → ¬ goal state →
      ∃ action next, permitted state action ∧ step state action = some next)
    (lower : ∀ rank state action next, Ranked rank state → ¬ goal state → permitted state action →
      step state action = some next → ∃ smaller < rank, Ranked smaller next)
    (kept : ∀ rank state action next, Ranked rank state → ¬ goal state → idle state action →
      step state action = some next → Ranked rank next ∧ ¬ goal next)
    {rank : Nat} {state : State} (ranked : Ranked rank state) :
    Within step permitted idle goal rank state := by
  induction rank using Nat.strongRecOn generalizing state with
  | ind rank ih =>
      by_cases met : goal state
      · exact within_mono (show Within step permitted idle goal 0 state from met) (Nat.zero_le rank)
      · obtain ⟨action, next, fair, moves⟩ := possible rank state ranked met
        obtain ⟨smaller, below, -⟩ := lower rank state action next ranked met fair moves
        obtain ⟨bound, rfl⟩ : ∃ bound, rank = bound + 1 := ⟨rank - 1, by omega⟩
        right
        intro later waits
        have waiting : Ranked (bound + 1) later ∧ ¬ goal later :=
          @follows_invariant _ _ _ _ _ _ (fun state => Ranked (bound + 1) state ∧ ¬ goal state)
            ⟨ranked, met⟩ (fun _ _ _ here idles moves => kept _ _ _ _ here.1 here.2 idles moves) waits
        refine ⟨possible _ later waiting.1 waiting.2, ?_⟩
        intro action next fair moves
        obtain ⟨smaller, below, ranked'⟩ := lower _ later action next waiting.1 waiting.2 fair moves
        exact within_mono (ih smaller below ranked') (Nat.le_of_lt_succ below)

end Goals

def execute : State → List Action → Option State
  | state, [] => some state
  | state, action :: rest => (step state action).bind fun next => execute next rest

theorem execute_reaches {start : State} (actions : List Action) {state last : State}
    (before : Reaches step start state) (executed : execute step state actions = some last) :
    Reaches step start last := by
  induction actions generalizing state with
  | nil =>
      cases executed
      exact before
  | cons action rest ih =>
      obtain ⟨next, moves, tail⟩ := Option.bind_eq_some_iff.mp executed
      exact ih (.step before moves) tail

def AtEvery {Event : Type u} (safe : List Event → Event → Prop) (trace : List Event) : Prop :=
  ∀ earlier event later, trace = earlier ++ event :: later → safe earlier event

section Traces

variable {Event : Type u} {safe : List Event → Event → Prop} {trace : List Event}

theorem at_every_nil : AtEvery safe [] := by
  intro earlier event later split
  cases earlier <;> cases split

theorem at_every_snoc {event : Event} (before : AtEvery safe trace) (here : safe trace event) :
    AtEvery safe (trace ++ [event]) := by
  intro earlier other later split
  cases later using List.reverseRecOn with
  | nil =>
      obtain ⟨rfl, same⟩ := List.append_inj' split rfl
      cases same
      exact here
  | append_singleton later last =>
      have shifted : trace ++ [event] = (earlier ++ other :: later) ++ [last] := by
        rw [split, List.append_assoc, List.cons_append]
      obtain ⟨front, -⟩ := List.append_inj' shifted rfl
      exact before earlier other later front

end Traces

end ThingyAccel.Executions
