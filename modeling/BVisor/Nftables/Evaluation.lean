import Mathlib

/-! How nftables evaluates a packet: the rules of a chain with jumps and gotos, and the base chains
of a hook interleaved with connection tracking and address translation.

What an operation does beside its verdict (the registers' data, the packet, connection tracking) is
a state `ω` that the operations change in any way they like. Chains and sets are named by their
identity. -/

namespace BVisor.Nftables

variable {κ ς ω : Type}

inductive Code where
  | nftContinue | nftBreak | nftReturn | nftJump | nftGoto | nfAccept | nfDrop | nfQueue | nfStolen
deriving DecidableEq

structure Verdict (κ : Type) where
  code : Code
  chain : Option κ
deriving DecidableEq

inductive Failure where
  | exceededNestedJumpLimit | chainNotFound | finalizeConnTrack | configureNoopNAT
deriving DecidableEq

def nestedJumpLimit : Nat := 16

/-! Operations. -/

/-- An operation that names no chain: the state after it, and the code if it sets the verdict. -/
abbrev Effect (ω : Type) := ω → ω × Option Code

structure Element (κ ω : Type) where
  /-- The verdict of an element whose data is one. -/
  verdict : Option (Verdict κ)
  /-- The copy of other data into the registers. -/
  fill : ω → ω
  ops : List (Effect ω)

structure NftSet (κ ω : Type) where
  elements : List (Element κ ω)
  catchAllElem : Option (Element κ ω)
  /-- `backend.Evaluate`: the index of the element that the registers at an index hold the key of. -/
  backend : Nat → ω → Option Nat

inductive Operation (κ ς ω : Type) where
  | immediate (verdict : Verdict κ)
  | lookup (set : ς) (sregIdx : Nat) (invert fillData : Bool)
  | other (effect : Effect ω)

abbrev Rule (κ ς ω : Type) := List (Operation κ ς ω)

structure BaseChainInfo where
  priority : Int
  policyDrop : Bool
deriving DecidableEq

/-- The chains and sets that rules name. A chain that does not exist has no rules. -/
structure Ruleset (κ ς ω : Type) where
  rules : κ → List (Rule κ ς ω)
  sets : ς → NftSet κ ω

abbrev Regs (κ ω : Type) := Verdict κ × ω

def Effect.evaluate (effect : Effect ω) (regs : Regs κ ω) : Regs κ ω :=
  match effect regs.2 with
  | (world, none) => (regs.1, world)
  | (world, some code) => (⟨code, none⟩, world)

def Element.evaluate (element : Element κ ω) (fillData : Bool) (regs : Regs κ ω) : Regs κ ω :=
  let filled : Regs κ ω :=
    if fillData then
      match element.verdict with
      | some verdict => (verdict, regs.2)
      | none => (regs.1, element.fill regs.2)
    else regs
  element.ops.foldl (fun regs op => Effect.evaluate op regs) filled

def NftSet.evaluate (set : NftSet κ ω) (sregIdx : Nat) (invert fillData : Bool) (regs : Regs κ ω) : Regs κ ω :=
  let valIdx := set.backend sregIdx regs.2
  let found := valIdx.isSome != invert
  match found, valIdx, set.catchAllElem with
  | true, some index, _ =>
    match set.elements[index]? with
    | some element => element.evaluate fillData regs
    | none => regs
  | true, none, _ => regs
  | false, _, some element => element.evaluate fillData regs
  | false, _, none => (⟨.nftBreak, none⟩, regs.2)

def Operation.evaluate (ruleset : Ruleset κ ς ω) (regs : Regs κ ω) : Operation κ ς ω → Regs κ ω
  | .immediate verdict => (verdict, regs.2)
  | .lookup set sregIdx invert fillData => (ruleset.sets set).evaluate sregIdx invert fillData regs
  | .other effect => effect.evaluate regs

def Rule.evaluate (ruleset : Ruleset κ ς ω) (regs : Regs κ ω) : Rule κ ς ω → Regs κ ω
  | [] => regs
  | op :: rest =>
    let regs := op.evaluate ruleset regs
    if regs.1.code ≠ .nftContinue then regs else Rule.evaluate ruleset regs rest

/-! Chains. -/

/-- The result of an evaluation; `none` when it does not return within the given depth. -/
abbrev Evaluated (κ ω : Type) := Option (Except Failure (Regs κ ω))

/-- What the loop of `evaluateFromRule` does after a rule and, for a jump, after its target. -/
def afterRule (regs : Regs κ ω) (next : Regs κ ω → Evaluated κ ω) : Evaluated κ ω :=
  match regs.1.code with
  | .nftReturn => some (.ok ({ regs.1 with code := .nftContinue }, regs.2))
  | .nftBreak => next ({ regs.1 with code := .nftContinue }, regs.2)
  | .nftContinue => next regs
  | _ => some (.ok regs)

def evaluateRules (ruleset : Ruleset κ ς ω) (call : κ → Nat → Regs κ ω → Evaluated κ ω)
    (jumpDepth : Nat) : List (Rule κ ς ω) → Regs κ ω → Evaluated κ ω
  | [], regs => some (.ok regs)
  | rule :: rest, regs =>
    let regs := rule.evaluate ruleset regs
    match regs.1.code, regs.1.chain with
    | .nftJump, none => some (.error .chainNotFound)
    | .nftGoto, none => some (.error .chainNotFound)
    | .nftJump, some nextChain =>
      match call nextChain (jumpDepth + 1) regs with
      | none => none
      | some (.error reason) => some (.error reason)
      | some (.ok regs) => afterRule regs (evaluateRules ruleset call jumpDepth rest)
    | .nftGoto, some nextChain => call nextChain jumpDepth regs
    | _, _ => afterRule regs (evaluateRules ruleset call jumpDepth rest)

/-- `Chain.evaluateFromRule` from the first rule, with chains nested at most `fuel` deep. -/
def evaluateFromRule (ruleset : Ruleset κ ς ω) : Nat → κ → Nat → Regs κ ω → Evaluated κ ω
  | 0, _, _, _ => none
  | fuel + 1, chain, jumpDepth, regs =>
    if jumpDepth ≥ nestedJumpLimit then some (.error .exceededNestedJumpLimit)
    else
      evaluateRules ruleset (evaluateFromRule ruleset fuel) jumpDepth (ruleset.rules chain)
        ({ regs.1 with code := .nftContinue }, regs.2)

def evaluateChain (ruleset : Ruleset κ ς ω) (fuel : Nat) (chain : κ) (regs : Regs κ ω) : Evaluated κ ω :=
  evaluateFromRule ruleset fuel chain 0 regs

/-! Hooks. -/

structure BaseChain (κ : Type) where
  chain : κ
  info : BaseChainInfo
  /-- The flag of its table. -/
  dormant : Bool

/-- `appendBaseChain`: the new chain goes before the first one that does not have a lower
priority, which is where the binary search finds its place. -/
def appendBaseChain (list : List (BaseChain κ)) (newBaseChain : BaseChain κ) : List (BaseChain κ) :=
  list.orderedInsert (fun a b => a.info.priority ≤ b.info.priority) newBaseChain

/-- The list of the base chains of a hook, in ascending order of their priorities. -/
structure HookFunctionStack (κ : Type) where
  baseChains : List (BaseChain κ)
  ascending : baseChains.Pairwise (fun a b => a.info.priority ≤ b.info.priority)

def HookFunctionStack.attachBaseChain (hfStack : HookFunctionStack κ) (chain : BaseChain κ) :
    HookFunctionStack κ where
  baseChains := appendBaseChain hfStack.baseChains chain
  ascending := by
    have total : Std.Total (fun a b : BaseChain κ => a.info.priority ≤ b.info.priority) :=
      ⟨fun a b => Int.le_total _ _⟩
    have trans : IsTrans (BaseChain κ) (fun a b => a.info.priority ≤ b.info.priority) :=
      ⟨fun _ _ _ => Int.le_trans⟩
    exact hfStack.ascending.orderedInsert chain _

/-- The parts of the stack that connection tracking and translation of a packet at one hook use:
the connection's update or finalization, and the configuration of its translation. -/
structure Tracking (ω : Type) where
  /-- `GetConnAndUpdatePkt` or `FinalizeConnTrack`; `none` when the latter fails. -/
  handle : ω → Option ω
  isConnTrackConfigured : ω → Bool
  isNATConfigured : ω → Bool
  configureNoopNAT : ω → Option ω
  applyNAT : ω → ω

inductive Extra where
  | connTrack | nat
deriving DecidableEq

structure Hook (κ : Type) where
  filter : HookFunctionStack κ
  nat : HookFunctionStack κ
  /-- The priority of connection tracking at this hook, if it runs there. -/
  connTrack : Option Int
  /-- The priority of translation at this hook, if it is enabled and runs there. -/
  natPriority : Option Int

/-- `getExtraEvaluators`: the two in the order of their priorities. -/
def Hook.extras (hook : Hook κ) : List (Int × Extra) :=
  match hook.connTrack, hook.natPriority with
  | none, none => []
  | some track, none => [(track, .connTrack)]
  | none, some nat => [(nat, .nat)]
  | some track, some nat =>
    if track ≤ nat then [(track, .connTrack), (nat, .nat)] else [(nat, .nat), (track, .connTrack)]

inductive Item (κ : Type) where
  | extra (priority : Int) (extra : Extra)
  | chain (chain : BaseChain κ)

def Item.priority : Item κ → Int
  | .extra priority _ => priority
  | .chain bc => bc.info.priority

/-- The order in which the loop of `EvaluateHook` takes them: an extra evaluator goes before the
base chains of a greater priority. -/
def schedule : List (Int × Extra) → List (BaseChain κ) → List (Item κ)
  | extras, [] => extras.map fun extra => .extra extra.1 extra.2
  | extras, chain :: rest =>
    (extras.takeWhile fun extra => extra.1 < chain.info.priority).map (fun extra => .extra extra.1 extra.2) ++
    .chain chain ::
      schedule (extras.dropWhile fun extra => extra.1 < chain.info.priority) rest

def isTerminalCode : Code → Bool
  | .nfDrop | .nfStolen | .nfQueue => true
  | _ => false

/-- `evaluateNATBaseChains`: the registers, and whether translation is configured. -/
def evaluateNATBaseChains (ruleset : Ruleset κ ς ω) (tracking : Tracking ω) (fuel : Nat) :
    List (BaseChain κ) → Regs κ ω → Option (Except Failure (Regs κ ω × Bool))
  | [], regs =>
    match tracking.configureNoopNAT regs.2 with
    | none => some (.error .configureNoopNAT)
    | some world => some (.ok ((regs.1, world), true))
  | bc :: rest, regs =>
    if bc.dormant then evaluateNATBaseChains ruleset tracking fuel rest regs
    else
      match evaluateChain ruleset fuel bc.chain regs with
      | none => none
      | some (.error reason) => some (.error reason)
      | some (.ok regs) =>
        if isTerminalCode regs.1.code then some (.ok (regs, false))
        else if tracking.isNATConfigured regs.2 then some (.ok (regs, true))
        else evaluateNATBaseChains ruleset tracking fuel rest regs

def evaluateNAT (ruleset : Ruleset κ ς ω) (tracking : Tracking ω) (fuel : Nat)
    (natBaseChains : List (BaseChain κ)) (regs : Regs κ ω) : Evaluated κ ω :=
  if !tracking.isConnTrackConfigured regs.2 then some (.ok regs)
  else
    let evaluated :=
      if tracking.isNATConfigured regs.2 then some (.ok (regs, true))
      else evaluateNATBaseChains ruleset tracking fuel natBaseChains regs
    match evaluated with
    | none => none
    | some (.error reason) => some (.error reason)
    | some (.ok (regs, false)) => some (.ok regs)
    | some (.ok (regs, true)) =>
      some (.ok ({ regs.1 with code := .nfAccept }, tracking.applyNAT regs.2))

def evaluateItems (ruleset : Ruleset κ ς ω) (tracking : Tracking ω) (fuel : Nat)
    (natBaseChains : List (BaseChain κ)) :
    List (Item κ) → Option (BaseChain κ) → Regs κ ω → Option (Except Failure Code)
  | [], lastEvaluatedChain, regs =>
    match regs.1.code with
    | .nftContinue | .nftReturn =>
      match lastEvaluatedChain with
      | some chain => some (.ok (if chain.info.policyDrop then .nfDrop else .nfAccept))
      | none => some (.ok .nfAccept)
    | code => some (.ok code)
  | item :: rest, lastEvaluatedChain, regs =>
    let go (lastEvaluatedChain : Option (BaseChain κ)) (regs : Regs κ ω) :
        Option (Except Failure Code) :=
      if isTerminalCode regs.1.code then some (.ok regs.1.code)
      else evaluateItems ruleset tracking fuel natBaseChains rest lastEvaluatedChain regs
    match item with
    | .extra _ .connTrack =>
      match tracking.handle regs.2 with
      | none => some (.error .finalizeConnTrack)
      | some world => go lastEvaluatedChain (regs.1, world)
    | .extra _ .nat =>
      match evaluateNAT ruleset tracking fuel natBaseChains regs with
      | none => none
      | some (.error reason) => some (.error reason)
      | some (.ok regs) => go lastEvaluatedChain regs
    | .chain bc =>
      if bc.dormant then
        evaluateItems ruleset tracking fuel natBaseChains rest lastEvaluatedChain regs
      else
        match evaluateChain ruleset fuel bc.chain regs with
        | none => none
        | some (.error reason) => some (.error reason)
        | some (.ok regs) => go (some bc) regs

/-- `EvaluateHook` for a packet of a valid family and hook. -/
def evaluateHook (ruleset : Ruleset κ ς ω) (tracking : Tracking ω) (fuel : Nat) (hook : Hook κ)
    (world : ω) : Option (Except Failure Code) :=
  evaluateItems ruleset tracking fuel hook.nat.baseChains
    (schedule hook.extras hook.filter.baseChains) none (⟨.nftContinue, none⟩, world)

end BVisor.Nftables
