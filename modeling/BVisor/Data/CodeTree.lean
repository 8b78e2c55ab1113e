import Mathlib

namespace BVisor.Data

/-! The unfolding of loop-free jump code.

A code tree is what is left of a program without backward jumps when its control flow is unfolded:
actions in sequence, two-way tests and leaves. Tests whose two sides agree are dropped, so two
programs that differ only in how they jump have the same tree.
-/

universe u

inductive CodeTree (α β ρ : Type u) where
  | leaf (result : ρ)
  | act (action : α) (next : CodeTree α β ρ)
  | test (condition : β) (yes no : CodeTree α β ρ)
deriving DecidableEq

namespace CodeTree

variable {α β ρ : Type u} {f g : α → Option α}

section Normal

variable [DecidableEq α] [DecidableEq β] [DecidableEq ρ]

/-- A test, left out when it decides nothing. -/
def decideBy (condition : β) (yes no : CodeTree α β ρ) : CodeTree α β ρ :=
  if yes = no then yes else .test condition yes no

@[simp] theorem decideBy_same (condition : β) (tree : CodeTree α β ρ) : decideBy condition tree tree = tree := by
  simp [decideBy]

/-- Leave actions out, or put others in their place. -/
def collect (f : α → Option α) : CodeTree α β ρ → CodeTree α β ρ
  | .leaf result => .leaf result
  | .act action next =>
    match f action with
    | none => next.collect f
    | some other => .act other (next.collect f)
  | .test condition yes no => decideBy condition (yes.collect f) (no.collect f)

theorem collect_decideBy (condition : β) (yes no : CodeTree α β ρ) :
    (decideBy condition yes no).collect f = decideBy condition (yes.collect f) (no.collect f) := by
  by_cases same : yes = no
  · simp [same]
  · simp [decideBy, same, collect]

theorem collect_collect (tree : CodeTree α β ρ) :
    (tree.collect f).collect g = tree.collect fun action => (f action).bind g := by
  induction tree with
  | leaf result => rfl
  | act action next ih => cases found : f action <;> simp [collect, found, ih]
  | test condition yes no yesIH noIH => simp only [collect, collect_decideBy, yesIH, noIH]

end Normal

section Evaluation

variable {σ ε ν : Type u} (run : α → σ → Except ε σ) (holds : β → σ → Bool) (finish : ρ → σ → Except ε ν)

/-- Run a tree: actions may fail, tests only look at the state. -/
def eval : CodeTree α β ρ → σ → Except ε ν
  | .leaf result, state => finish result state
  | .act action next, state =>
    match run action state with
    | .error reason => .error reason
    | .ok after => next.eval after
  | .test condition yes no, state =>
    if holds condition state then yes.eval state else no.eval state

variable [DecidableEq α] [DecidableEq β] [DecidableEq ρ]

theorem eval_decideBy (condition : β) (yes no : CodeTree α β ρ) (state : σ) :
    (decideBy condition yes no).eval run holds finish state =
      if holds condition state then yes.eval run holds finish state
      else no.eval run holds finish state := by
  by_cases same : yes = no
  · simp [same]
  · simp [decideBy, same, eval]

end Evaluation

section Tracking

variable {δ : Type u} (track : α → δ → δ)

/-- `Meets track start tree action info`: some path through the tree comes to `action`, and then
`info` is what has been recorded on the way, from `start` on. -/
def Meets (start : δ) : CodeTree α β ρ → α → δ → Prop
  | .leaf _, _, _ => False
  | .act first next, action, info =>
    (first = action ∧ start = info) ∨ next.Meets (track first start) action info
  | .test _ yes no, action, info => yes.Meets start action info ∨ no.Meets start action info

variable {track} {start info : δ} {tree : CodeTree α β ρ} {action : α}

section Normal

variable [DecidableEq α] [DecidableEq β] [DecidableEq ρ]

theorem meets_decideBy {condition : β} {yes no : CodeTree α β ρ} :
    (decideBy condition yes no).Meets track start action info ↔
      yes.Meets track start action info ∨ no.Meets track start action info := by
  by_cases same : yes = no
  · simp [same]
  · simp [decideBy, same, Meets]

variable (track) in
/-- Actions that leave every state they are met in as it is may be left out. `invariant` relates
what is recorded along a path to the state reached on it. -/
theorem eval_collect {σ ε ν : Type u} {run : α → σ → Except ε σ} {holds : β → σ → Bool}
    {finish : ρ → σ → Except ε ν} (invariant : δ → σ → Prop)
    (keeps : ∀ action info state after, invariant info state → run action state = .ok after →
      invariant (track action info) after)
    (same : ∀ action other, f action = some other → run other = run action)
    (idle : ∀ action info state, tree.Meets track start action info → f action = none →
      invariant info state → run action state = .ok state)
    {state : σ} (established : invariant start state) :
    (tree.collect f).eval run holds finish state = tree.eval run holds finish state := by
  induction tree generalizing start state with
  | leaf result => rfl
  | act first next ih =>
    have nextIdle := fun action info state met =>
      idle action info state (Or.inr met)
    cases found : f first with
    | none =>
      have unchanged := idle first start state (.inl ⟨rfl, rfl⟩) found established
      simp only [collect, found, eval, unchanged]
      exact ih nextIdle (keeps first start state state established unchanged)
    | some other =>
      simp only [collect, found, eval, same first other found]
      cases ran : run first state with
      | error reason => rfl
      | ok after => exact ih nextIdle (keeps first start state after established ran)
  | test condition yes no yesIH noIH =>
    simp only [collect, eval_decideBy, eval,
      yesIH (fun action info state met => idle action info state (.inl met)) established,
      noIH (fun action info state met => idle action info state (.inr met)) established]

end Normal

end Tracking

end CodeTree

end BVisor.Data
