import BVisor.Data.Run
import BVisor.Nftables.Evaluation

/-! The messages that build a ruleset: chains, rules with the check for loops at their
registration, sets and their elements. -/

namespace BVisor.Nftables

variable {κ ς ω : Type} [DecidableEq κ] [DecidableEq ς]

/-! The check for loops. -/

inductive RegisterError where
  | exceededNestedJumpLimit | jumpsToItself | noTarget
deriving DecidableEq

/-- `isJumpOrGotoOperation`: the target, for an immediate operation that jumps or goes to one. -/
def isJumpOrGotoOperation : Operation κ ς ω → Option (Option κ)
  | .immediate ⟨.nftJump, chain⟩ => some chain
  | .immediate ⟨.nftGoto, chain⟩ => some chain
  | _ => none

/-- `checkLoops`, where `remaining` is what is left of the nested jump limit at its depth. -/
def checkLoops (rules : κ → List (Rule κ ς ω)) (source : κ) :
    Nat → κ → Except RegisterError Unit
  | 0, _ => .error .exceededNestedJumpLimit
  | remaining + 1, chain =>
    if chain = source then .error .jumpsToItself
    else
      (rules chain).flatten.forM fun op =>
        match isJumpOrGotoOperation op with
        | none => .ok ()
        | some none => .error .noTarget
        | some (some nextChain) => checkLoops rules source remaining nextChain

def checkRule (rules : κ → List (Rule κ ς ω)) (chain : κ) (rule : Rule κ ς ω) : Except RegisterError Unit :=
  rule.forM fun op =>
    match isJumpOrGotoOperation op with
    | none => .ok ()
    | some none => .error .noTarget
    | some (some nextChain) => checkLoops rules chain nestedJumpLimit nextChain

/-! Messages. -/

inductive ChainKind where
  | base | regular
deriving DecidableEq

structure State (κ ς ω : Type) extends Ruleset κ ς ω where
  /-- The chains that are in some table. -/
  chains : κ → Option ChainKind

def State.empty : State κ ς ω where
  rules := fun _ => []
  sets := fun _ => ⟨[], none, fun _ _ => none⟩
  chains := fun _ => none

/-- What a batch can ask for. Chains and sets are the objects, not their names. The last argument
of a message about an element is the set's backend after it. -/
inductive Message (κ ς ω : Type) where
  | newChain (chain : κ) (kind : ChainKind)
  | deleteChain (chain : κ)
  | newRule (chain : κ) (index : Nat) (rule : Rule κ ς ω)
  | deleteRule (chain : κ) (index : Nat)
  | deleteAllRules (chain : κ)
  | newElement (set : ς) (element : Element κ ω) (backend : Nat → ω → Option Nat)
  | newCatchAll (set : ς) (element : Element κ ω)
  | deleteElement (set : ς) (index : Nat) (backend : Nat → ω → Option Nat)
  | deleteCatchAll (set : ς)
  /-- Of a set, or the deletion of the set itself. -/
  | deleteAllElements (set : ς)
  /-- A table, a new set, a name, a policy, a flag: neither rules nor elements change. -/
  | other

/-- `parseAndValidateVerdictData`: a jump or goto names a chain that exists and is no base chain. -/
def State.validVerdict (state : State κ ς ω) (verdict : Verdict κ) : Bool :=
  match verdict.code, verdict.chain with
  | .nftJump, some chain | .nftGoto, some chain => state.chains chain = some .regular
  | .nftJump, none | .nftGoto, none => false
  | _, _ => true

def State.validElement (state : State κ ς ω) (element : Element κ ω) : Bool :=
  element.verdict.all state.validVerdict

def State.validRule (state : State κ ς ω) (rule : Rule κ ς ω) : Bool :=
  rule.all fun op =>
    match op with
    | .immediate verdict => state.validVerdict verdict
    | _ => true

def State.setRules (state : State κ ς ω) (chain : κ) (rules : List (Rule κ ς ω)) : State κ ς ω :=
  { state with rules := Function.update state.rules chain rules }

def State.setSet (state : State κ ς ω) (set : ς) (content : NftSet κ ω) : State κ ς ω :=
  { state with sets := Function.update state.sets set content }

/-- `removeElement`: the last element takes the place of the removed one. -/
def removeElement (elements : List (Element κ ω)) (index : Nat) : List (Element κ ω) :=
  match elements.getLast? with
  | none => []
  | some last => (elements.set index last).dropLast

/-- One message; `none` when it is refused, which fails its batch. The checks of attributes,
owners, flags, references and compatibility that a message has to pass before are any. -/
def step (admits : State κ ς ω → Message κ ς ω → Bool) (state : State κ ς ω)
    (message : Message κ ς ω) : Option (State κ ς ω) :=
  if !admits state message then none
  else
    match message with
    | .newChain chain kind =>
      if state.chains chain = none then
        some { state with chains := Function.update state.chains chain (some kind) }
      else none
    | .deleteChain chain =>
      some { state.setRules chain [] with chains := Function.update state.chains chain none }
    | .newRule chain index rule =>
      if state.chains chain = none then none
      else if !state.validRule rule then none
      else if (state.rules chain).length < index then none
      else
        match checkRule state.rules chain rule with
        | .error _ => none
        | .ok () => some (state.setRules chain ((state.rules chain).insertIdx index rule))
    | .deleteRule chain index => some (state.setRules chain ((state.rules chain).eraseIdx index))
    | .deleteAllRules chain => some (state.setRules chain [])
    | .newElement set element backend =>
      if !state.validElement element then none
      else
        let content := state.sets set
        some (state.setSet set
          { content with elements := content.elements ++ [element], backend := backend })
    | .newCatchAll set element =>
      if !state.validElement element || (state.sets set).catchAllElem.isSome then none
      else some (state.setSet set { state.sets set with catchAllElem := some element })
    | .deleteElement set index backend =>
      let content := state.sets set
      some (state.setSet set
        { content with elements := removeElement content.elements index, backend := backend })
    | .deleteCatchAll set =>
      some (state.setSet set { state.sets set with catchAllElem := none })
    | .deleteAllElements set => some (state.setSet set ⟨[], none, fun _ _ => none⟩)
    | .other => some state

end BVisor.Nftables
