import BVisor.Data.Run

/-! Calls that block. A call tries its request and, when that would block, registers for events,
tries again and sleeps until it is notified. -/

namespace BVisor.Data.Waiting

/-- `notified` says whether a notification is in the channel of the call. -/
inductive Phase where
  | calling | registering
  | retrying (notified : Bool)
  | asleep (notified : Bool)
  | returned
deriving DecidableEq

structure Caller (Request : Type) where
  request : Request
  phase : Phase
deriving DecidableEq

/-- `owed` are the notifications that are due and not delivered yet. -/
structure State (Shared Request Side : Type) where
  shared : Shared
  callers : List (Caller Request)
  owed : List Side

inductive Event (Request Side Choice Change : Type) where
  | call (request : Request)
  | proceed (index : Nat) (choice : Choice)
  | giveUp (index : Nat)
  | change (change : Change)
  | notify (side : Side)

/-- What the calls share. Who registers is notified at once if `ready`. An attempt that would block
leaves a request to be tried again; a `Choice` is what the environment decides. -/
structure Component (Shared Request Side Choice Change : Type) where
  side : Request → Side
  ready : Shared → Request → Bool
  attempt : Shared → Request → Choice → Shared × List Side × Option Request
  change : Shared → Change → Shared × List Side

variable {Shared Request Side Choice Change : Type}

def Phase.notify : Phase → Phase
  | .retrying _ => .retrying true
  | .asleep _ => .asleep true
  | phase => phase

namespace Component

variable (component : Component Shared Request Side Choice Change)

/-- An attempt of the call at `index`, whose phase is `blocked` if it would block. -/
def tryOnce (state : State Shared Request Side) (index : Nat) (request : Request) (choice : Choice)
    (blocked : Phase) : State Shared Request Side :=
  let (shared, notified, rest) := component.attempt state.shared request choice
  { shared
    callers := state.callers.set index
      (rest.elim ⟨request, .returned⟩ fun rest => ⟨rest, blocked⟩)
    owed := state.owed ++ notified }

def step [DecidableEq Side] (state : State Shared Request Side) :
    Event Request Side Choice Change → Option (State Shared Request Side)
  | .call request => some { state with callers := state.callers ++ [⟨request, .calling⟩] }
  | .proceed index choice =>
    match state.callers[index]? with
    | none => none
    | some ⟨request, .calling⟩ => some (component.tryOnce state index request choice .registering)
    | some ⟨request, .retrying notified⟩ =>
      some (component.tryOnce state index request choice (.asleep notified))
    | some ⟨request, .registering⟩ =>
      let notified := component.ready state.shared request
      some { state with callers := state.callers.set index ⟨request, .retrying notified⟩ }
    | some ⟨request, .asleep true⟩ =>
      some { state with callers := state.callers.set index ⟨request, .retrying false⟩ }
    | some ⟨_, .asleep false⟩ | some ⟨_, .returned⟩ => none
  | .giveUp index =>
    (state.callers[index]?).map fun caller =>
      { state with callers := state.callers.set index { caller with phase := .returned } }
  | .change change =>
    let (shared, notified) := component.change state.shared change
    some { state with shared, owed := state.owed ++ notified }
  | .notify side =>
    if side ∈ state.owed then
      some { state with
        callers := state.callers.map fun caller =>
          if component.side caller.request = side then { caller with phase := caller.phase.notify }
          else caller
        owed := state.owed.erase side }
    else none

/-- A step that is not a change against the guard. -/
def guardedStep [DecidableEq Side] (guard : Shared → Change → Bool) (state : State Shared Request Side)
    (event : Event Request Side Choice Change) : Option (State Shared Request Side) :=
  match event with
  | .change change => if guard state.shared change then component.step state (.change change) else none
  | event => component.step state event

/-- Whoever is blocked and stays asleep without a notification is still blocked. -/
structure Notifies (Blocked : Shared → Request → Prop) (guard : Shared → Change → Bool) : Prop where
  blocks : ∀ {shared request choice after notified rest},
    component.attempt shared request choice = (after, notified, some rest) → Blocked after rest
  attempt : ∀ {shared request choice after notified rest other},
    component.attempt shared request choice = (after, notified, rest) → Blocked shared other →
      component.side other ∈ notified ∨ Blocked after other
  change : ∀ {shared change after notified other}, guard shared change = true →
    component.change shared change = (after, notified) → Blocked shared other →
      component.side other ∈ notified ∨ Blocked after other

/-- Who sleeps without a notification is owed one or is blocked. -/
def Covered (Blocked : Shared → Request → Prop) (state : State Shared Request Side) : Prop :=
  ∀ caller ∈ state.callers, caller.phase = .asleep false →
    component.side caller.request ∈ state.owed ∨ Blocked state.shared caller.request

variable {component} {Blocked : Shared → Request → Prop} {guard : Shared → Change → Bool}
  {state next : State Shared Request Side} {event : Event Request Side Choice Change}

theorem Covered.set (covered : component.Covered Blocked state) (index : Nat) {caller : Caller Request}
    (own : caller.phase ≠ .asleep false) :
    component.Covered Blocked { state with callers := state.callers.set index caller } := by
  intro other member asleep
  rcases List.mem_or_eq_of_mem_set member with old | rfl
  · exact covered other old asleep
  · exact absurd asleep own

theorem Notifies.tryOnce (notifies : component.Notifies Blocked guard)
    (covered : component.Covered Blocked state) (index : Nat) (request : Request) (choice : Choice)
    (blocked : Phase) : component.Covered Blocked (component.tryOnce state index request choice blocked) := by
  unfold Component.tryOnce
  rcases tried : component.attempt state.shared request choice with ⟨shared, notified, rest⟩
  intro other member asleep
  rcases List.mem_or_eq_of_mem_set member with old | rfl
  · rcases covered other old asleep with owed | stuck
    · exact .inl (List.mem_append_left _ owed)
    · exact (notifies.attempt tried stuck).imp_left (List.mem_append_right _)
  · cases rest with
    | none => cases asleep
    | some rest => exact .inr (notifies.blocks tried)

variable [DecidableEq Side]

theorem Notifies.step (notifies : component.Notifies Blocked guard)
    (covered : component.Covered Blocked state)
    (stepped : component.guardedStep guard state event = some next) : component.Covered Blocked next := by
  cases event with
  | call request =>
    cases stepped
    intro other member asleep
    rcases List.mem_append.mp member with old | new
    · exact covered other old asleep
    · rw [List.mem_singleton.mp new] at asleep
      cases asleep
  | proceed index choice =>
    simp only [guardedStep, Component.step] at stepped
    split at stepped <;> cases stepped
    · exact notifies.tryOnce covered _ _ _ _
    · exact notifies.tryOnce covered _ _ _ _
    · exact covered.set _ nofun
    · exact covered.set _ nofun
  | giveUp index =>
    obtain ⟨caller, _, rfl⟩ := Option.map_eq_some_iff.mp stepped
    exact covered.set _ nofun
  | change change =>
    simp only [guardedStep, Component.step] at stepped
    split at stepped <;> cases stepped
    rename_i guarded
    intro other member asleep
    rcases covered other member asleep with owed | stuck
    · exact .inl (List.mem_append_left _ owed)
    · exact (notifies.change guarded rfl stuck).imp_left (List.mem_append_right _)
  | notify side =>
    simp only [guardedStep, Component.step] at stepped
    split at stepped <;> cases stepped
    intro other member asleep
    obtain ⟨caller, old, rfl⟩ := List.mem_map.mp member
    split at asleep
    · cases phase : caller.phase <;> simp [phase, Phase.notify] at asleep
    · rename_i differs
      rw [if_neg differs]
      exact (covered caller old asleep).imp_left (List.mem_erase_of_ne differs).mpr

/-- As long as the changes keep to the guard, nobody sleeps without a notification, in its channel
or owed, although it is not blocked. -/
theorem Notifies.covered (notifies : component.Notifies Blocked guard) {shared : Shared}
    {events : List (Event Request Side Choice Change)}
    (ran : run (component.guardedStep guard) ⟨shared, [], []⟩ events = some state) :
    component.Covered Blocked state :=
  run_invariant (component.Covered Blocked) (fun _ _ _ => notifies.step) ran nofun

end Component

end BVisor.Data.Waiting
