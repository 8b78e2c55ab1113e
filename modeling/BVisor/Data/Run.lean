import Mathlib

/-! Runs of a transition system whose step is a partial function of the state and an event. -/

namespace BVisor.Data

universe u v

variable {σ : Type u} {ε : Type v} {step : σ → ε → Option σ} {before after : σ} {events : List ε}

/-- The state after a list of events; `none` if some event is not enabled when its turn comes. -/
def run (step : σ → ε → Option σ) (state : σ) : List ε → Option σ
  | [] => some state
  | event :: rest =>
    match step state event with
    | none => none
    | some next => run step next rest

def Reaches (step : σ → ε → Option σ) (before after : σ) : Prop :=
  ∃ events, run step before events = some after

theorem run_cons {event : ε} {next : σ} {rest : List ε} (stepped : step before event = some next) :
    run step before (event :: rest) = run step next rest := by
  simp only [run, stepped]

theorem Reaches.tail {event : ε} {next : σ} (reaches : Reaches step before after)
    (stepped : step after event = some next) : Reaches step before next := by
  obtain ⟨events, ran⟩ := reaches
  refine ⟨events ++ [event], ?_⟩
  induction events generalizing before with
  | nil =>
    cases ran
    rw [List.nil_append, run_cons stepped, run]
  | cons first rest ih =>
    simp only [List.cons_append, run] at ran ⊢
    cases moved : step before first with
    | none => simp [moved] at ran
    | some middle =>
      rw [moved] at ran
      exact ih ran

theorem run_invariant (invariant : σ → Prop)
    (keeps : ∀ state event next, invariant state → step state event = some next → invariant next)
    (ran : run step before events = some after)
    (initially : invariant before) : invariant after := by
  induction events generalizing before with
  | nil =>
    cases ran
    exact initially
  | cons event rest ih =>
    cases stepped : step before event with
    | none => simp [run, stepped] at ran
    | some next =>
      simp only [run, stepped] at ran
      exact ih ran (keeps before event next initially stepped)

theorem Reaches.invariant (reaches : Reaches step before after) (invariant : σ → Prop)
    (keeps : ∀ state event next, invariant state → step state event = some next → invariant next)
    (initially : invariant before) : invariant after := by
  obtain ⟨events, ran⟩ := reaches
  exact run_invariant invariant keeps ran initially

/-- The guard holds of the state and the event of every step of the run. -/
def Along (step : σ → ε → Option σ) (guard : σ → ε → Prop) (state : σ) : List ε → Prop
  | [] => True
  | event :: rest =>
    guard state event ∧ ∀ next, step state event = some next → Along step guard next rest

theorem run_invariant_along {guard : σ → ε → Prop} (invariant : σ → Prop)
    (keeps : ∀ state event next, invariant state → guard state event →
      step state event = some next → invariant next) (ran : run step before events = some after)
    (along : Along step guard before events) (initially : invariant before) :
    invariant after := by
  induction events generalizing before with
  | nil =>
    cases ran
    exact initially
  | cons event rest ih =>
    obtain ⟨guarded, later⟩ := along
    cases stepped : step before event with
    | none => simp [run, stepped] at ran
    | some next =>
      simp only [run, stepped] at ran
      exact ih ran (later next stepped) (keeps before event next initially guarded stepped)

end BVisor.Data
