import BVisor.Bpf.Validation

/-! The optimizer passes of `pkg/bpf/optimizer.go`.

A pass returns the new instructions and whether it changed any; `none` is a run-time panic, from an
index outside the program or from one of the explicit checks. -/

namespace BVisor.Bpf

def maxConditionalJumpOffset : Nat := (1 <<< 8) - 1
def maxUnconditionalJumpOffset : Nat := (1 <<< 16) - 1

abbrev PassResult := Option (List Instruction × Bool)

/-- A rewrite of the instruction at `pc`: `none` leaves it as it is. -/
abbrev Rewrite := List Instruction → Nat → Instruction → Option (Option Instruction)

/-- `for pc, ins := range insns`, with `insns[pc]` assigned in place. -/
def sweepFrom (rewrite : Rewrite) :
    Nat → Nat → List Instruction → Bool → PassResult
  | 0, _, insns, changed => some (insns, changed)
  | count + 1, pc, insns, changed => do
      let ins ← insns[pc]?
      match ← rewrite insns pc ins with
      | none => sweepFrom rewrite count (pc + 1) insns changed
      | some after => sweepFrom rewrite count (pc + 1) (insns.set pc after) true

def sweep (rewrite : Rewrite) (insns : List Instruction) : PassResult :=
  sweepFrom rewrite insns.length 0 insns false

/-- The offset past an unconditional jump at the target of a jump by `offset` from `pc`, if there
is one and the longer offset is within `limit`. -/
def threadedOffset (insns : List Instruction) (pc offset limit : Nat) : Option (Option Nat) := do
  let target ← insns[pc + offset + 1]?
  if target.isUnconditionalJump ∧ offset + 1 + target.k.toNat ≤ limit then
    some (some (offset + 1 + target.k.toNat))
  else some none

def threadConditionalJump : Rewrite := fun insns pc ins =>
  if !ins.isConditionalJump then some none
  else do
    let yes ← threadedOffset insns pc ins.jumpIfTrue.toNat maxConditionalJumpOffset
    let no ← threadedOffset insns pc ins.jumpIfFalse.toNat maxConditionalJumpOffset
    if yes = none ∧ no = none then some none
    else some (some { ins with
      jumpIfTrue := BitVec.ofNat 8 (yes.getD ins.jumpIfTrue.toNat)
      jumpIfFalse := BitVec.ofNat 8 (no.getD ins.jumpIfFalse.toNat) })

def optimizeConditionalJumps : List Instruction → PassResult :=
  sweep threadConditionalJump

def mergeSameTarget : Rewrite := fun _ _ ins =>
  if !ins.isConditionalJump then some none
  else if ins.jumpIfTrue ≠ ins.jumpIfFalse then some none
  else some (some (jump (Code.jmp ||| Code.ja) (ins.jumpIfTrue.setWidth 32) 0 0))

def optimizeSameTargetConditionalJumps : List Instruction → PassResult :=
  sweep mergeSameTarget

def threadUnconditionalJump : Rewrite := fun insns pc ins =>
  if !ins.isUnconditionalJump then some none
  else do
    match ← threadedOffset insns pc ins.k.toNat maxUnconditionalJumpOffset with
    | none => some none
    | some offset => some (some { ins with k := BitVec.ofNat 32 offset })

def optimizeUnconditionalJumps : List Instruction → PassResult :=
  sweep threadUnconditionalJump

def copyReturn : Rewrite := fun insns pc ins =>
  if !ins.isUnconditionalJump then some none
  else do
    let target ← insns[pc + ins.k.toNat + 1]?
    if !target.isReturn then some none else some (some target)

def optimizeJumpsToReturn : List Instruction → PassResult :=
  sweep copyReturn

def decrementOffset {width : Nat} (target pc : Nat) (offset : BitVec width) : BitVec width :=
  if pc + offset.toNat + 1 > target then offset - 1 else offset

def decrementJump (target pc : Nat) (ins : Instruction) : Instruction :=
  if !ins.isJump then ins
  else if ins.isUnconditionalJump then { ins with k := decrementOffset target pc ins.k }
  else
    { ins with
      jumpIfTrue := decrementOffset target pc ins.jumpIfTrue
      jumpIfFalse := decrementOffset target pc ins.jumpIfFalse }

def decrementJumps (insns : List Instruction) (target : Nat) : List Instruction :=
  insns.mapIdx fun pc ins => if pc < target then decrementJump target pc ins else ins

def removeAt (pc : Nat) (insns : List Instruction) : List Instruction :=
  decrementJumps (insns.eraseIdx pc) pc

/-- `codeRemoval.Apply`: the marked indexes are removed from the highest to the lowest. -/
def applyRemoval (insns : List Instruction) (toRemove : List Nat) : List Instruction × Bool :=
  if toRemove = [] then (insns, false)
  else ((toRemove.insertionSort (· ≤ ·)).foldr removeAt insns, true)

def places (insns : List Instruction) (marked : Nat → Instruction → Bool) : List Nat :=
  (List.range insns.length).filter fun pc => (insns[pc]?).any (marked pc)

def removeZeroInstructionJumps (insns : List Instruction) : PassResult :=
  some (applyRemoval insns (places insns fun _ ins => ins.isUnconditionalJump && ins.k == 0))

/-- The loop over `cursors` of `removeDeadCode`. Each round takes a cursor away, and at most two
are added for each instruction that gets marked, so `2 * len(insns) + 1` rounds are enough. -/
def markReachable (insns : List Instruction) :
    Nat → List Nat → List Bool → Option (List Bool)
  | _, [], reachable => some reachable
  | 0, _ :: _, _ => none
  | rounds + 1, cursor :: cursors, reachable => do
      if ← reachable[cursor]? then markReachable insns rounds cursors reachable
      else
        let ins ← insns[cursor]?
        markReachable insns rounds (cursors ++ successors cursor ins) (reachable.set cursor true)

def removeDeadCode (insns : List Instruction) : PassResult :=
  if insns.length = 0 then some (insns, false)
  else do
    let reachable ← markReachable insns (2 * insns.length + 1) [0] (List.replicate insns.length false)
    some (applyRemoval insns (places insns fun pc _ => reachable[pc]? == some false))

def reverseWalk (insns : List Instruction) (target : Nat) : List Nat :=
  places insns fun pc ins => (successors pc ins).contains target

/-- The backward walk of `removeRedundantLoads` from the predecessors `beforePCs`: the place of the
last instruction that modified A, `none` for -1. Predecessors lie strictly before, so the walk is
over after at most `len(insns)` steps. -/
def lastModifiedA (insns : List Instruction) : Nat → List Nat → Option Nat
  | 0, _ => none
  | steps + 1, beforePCs =>
    match beforePCs with
    | [beforePC] =>
      if (insns[beforePC]?).any (!·.modifiesRegisterA) then
        lastModifiedA insns steps (reverseWalk insns beforePC)
      else some beforePC
    | _ => none

def isRedundantLoad (insns : List Instruction) (pc : Nat) (ins : Instruction) : Bool :=
  ins.cls == Code.ld &&
    match lastModifiedA insns insns.length (reverseWalk insns pc) with
    | none => false
    | some before => (insns[before]?).any (ins.equal ·)

def removeRedundantLoads (insns : List Instruction) : PassResult :=
  -- Building `reverseWalk` indexes it with every successor.
  if places insns (fun pc ins => (successors pc ins).any (insns.length ≤ ·)) ≠ [] then none
  else some (applyRemoval insns (places insns (isRedundantLoad insns)))

def neededOffset (toPC limit pc : Nat) : Option Nat :=
  if pc < toPC ∧ toPC - pc - 1 ≤ limit then some (toPC - pc - 1) else none

def goesTo (target pc offset : Nat) : Bool :=
  pc + offset + 1 == target

def jumpsTo (target pc : Nat) (ins : Instruction) : Bool :=
  ins.jumpOffsets.any (goesTo target pc)

/-- Make the jumps of one instruction that go to `fromPC` go to `toPC`; `none` if one of them
cannot reach it. -/
def retarget (fromPC toPC pc : Nat) (ins : Instruction) : Option Instruction :=
  if !jumpsTo fromPC pc ins then some ins
  else if ins.isConditionalJump then do
    let offset ← neededOffset toPC maxConditionalJumpOffset pc
    some { ins with
      jumpIfTrue :=
        if goesTo fromPC pc ins.jumpIfTrue.toNat then BitVec.ofNat 8 offset else ins.jumpIfTrue
      jumpIfFalse :=
        if goesTo fromPC pc ins.jumpIfFalse.toNat then BitVec.ofNat 8 offset
        else ins.jumpIfFalse }
  else do
    let offset ← neededOffset toPC maxUnconditionalJumpOffset pc
    some { ins with k := BitVec.ofNat 32 offset }

/-- All the instructions from `pc` on with their jumps to `fromPC` redirected, `none` if that is
not possible for one of them. -/
def retargetAll (fromPC toPC : Nat) : Nat → List Instruction → Option (List Instruction)
  | _, [] => some []
  | pc, ins :: rest => do
      let first ← retarget fromPC toPC pc ins
      let others ← retargetAll fromPC toPC (pc + 1) rest
      some (first :: others)

/-- `rewriteAllJumpsToReturn`: all or nothing. The outer `none` is one of its panics, the inner
one its result `false`. -/
def rewriteAllJumpsToReturn (insns : List Instruction) (fromPC toPC : Nat) :
    Option (Option (List Instruction)) := do
  let fromIns ← insns[fromPC]?
  let toIns ← insns[toPC]?
  if !fromIns.isReturn ∨ !toIns.isReturn ∨ !fromIns.equal toIns then none
  else if places insns (jumpsTo fromPC) = [] then some none
  else some (retargetAll fromPC toPC 0 insns)

/-- The stand-in for register A among the return values. -/
def retRegisterA : BitVec 64 := 0xaaaaaaaaaaaaaaaa

/-- The key of a return instruction in `retValueToPC`, `none` for its panic. -/
def retValue (ins : Instruction) : Option (BitVec 64) :=
  if ins.opCode - Code.ret = Code.a then some retRegisterA
  else if ins.opCode - Code.ret = Code.k then some (ins.k.setWidth 64)
  else none

def popularityFrom (insns : List Instruction) (pc pc2 : Nat) : Nat :=
  match insns[pc2]? with
  | none => 0
  | some ins2 =>
    if ins2.isReturn then 0
    else if ins2.isJump then ins2.jumpOffsets.countP (goesTo pc pc2)
    else if pc2 + 1 = pc then insns.length
    else 0

def retPopularity (insns : List Instruction) (pc : Nat) : Nat :=
  ((List.range pc).map (popularityFrom insns pc)).sum

def retCanBeFallenThrough (insns : List Instruction) (pc : Nat) : Bool :=
  (List.range pc).any fun pc2 =>
    pc2 + 1 == pc && (insns[pc2]?).any fun ins2 => !ins2.isReturn && !ins2.isJump

def retValueToPC (insns : List Instruction) : List (List Nat) :=
  let returns := insns.filter (·.isReturn)
  (returns.filterMap retValue).dedup.map fun value =>
    places insns fun _ ins => ins.isReturn && retValue ins == some value

/-- Ascending popularity, then ascending place. -/
def popularityOrder (insns : List Instruction) (first second : Nat) : Prop :=
  retPopularity insns first < retPopularity insns second ∨
    (retPopularity insns first = retPopularity insns second ∧ first ≤ second)

instance (insns : List Instruction) : DecidableRel (popularityOrder insns) :=
  fun _ _ => inferInstanceAs (Decidable (_ ∨ _))

def moveJumps (unpopularPC : Nat) :
    List Nat → List Instruction → PassResult
  | [], insns => some (insns, false)
  | popularPC :: others, insns => do
      match ← rewriteAllJumpsToReturn insns unpopularPC popularPC with
      | some after => some (after, true)
      | none => moveJumps unpopularPC others insns

/-- A return that can be fallen through to stays where it is. `fallsThrough` was computed before
any jump was moved; the candidates are tried from the most popular one down. -/
def shrinkReturn (fallsThrough : Nat → Bool) (unpopularPC : Nat) (others : List Nat)
    (insns : List Instruction) : PassResult :=
  if fallsThrough unpopularPC then some (insns, false)
  else moveJumps unpopularPC others.reverse insns

def shrinkGroup (fallsThrough : Nat → Bool) :
    List Nat → List Instruction → PassResult
  | [], insns => some (insns, false)
  | unpopularPC :: others, insns => do
      let (moved, changed) ← shrinkReturn fallsThrough unpopularPC others insns
      let (final, changedLater) ← shrinkGroup fallsThrough others moved
      some (final, changed || changedLater)

def shrinkGroups (fallsThrough : Nat → Bool) :
    List (List Nat) → List Instruction → PassResult
  | [], insns => some (insns, false)
  | pcs :: groups, insns => do
      let (moved, changed) ← shrinkGroup fallsThrough pcs insns
      let (final, changedLater) ← shrinkGroups fallsThrough groups moved
      some (final, changed || changedLater)

/-- The order in which a `range` over the map `retValueToPC` visits its entries. Go leaves it open,
so it is a parameter; it may depend on the program, and `Optimize` never meets a program twice. -/
abbrev MapOrder := List Instruction → List (List Nat) → List (List Nat)

def optimizeJumpsToSmallestSetOfReturns (order : MapOrder) (insns : List Instruction) : PassResult :=
  if (insns.filter (·.isReturn)).any (fun ins => (retValue ins).isNone) then none
  else
    let groups := (order insns (retValueToPC insns)).map (·.insertionSort (popularityOrder insns))
    shrinkGroups (retCanBeFallenThrough insns) groups insns

def optimizerFuncs (order : MapOrder) : List (List Instruction → PassResult) :=
  [optimizeConditionalJumps, optimizeSameTargetConditionalJumps, optimizeUnconditionalJumps,
    optimizeJumpsToReturn, removeZeroInstructionJumps, removeDeadCode, removeRedundantLoads,
    optimizeJumpsToSmallestSetOfReturns order]

/-- One round of the loop of `optimize`: the passes run in order up to the first that changes the
program. The result is `none` for a panic, and `some none` when no pass changes anything. -/
def firstChange : List (List Instruction → PassResult) → List Instruction →
    Option (Option (List Instruction))
  | [], _ => some none
  | pass :: passes, insns => do
      let (after, changed) ← pass insns
      if changed then some (some after) else firstChange passes after

def optimizeWithin (passes : List (List Instruction → PassResult)) :
    Nat → List Instruction → Option (List Instruction)
  | 0, _ => none
  | rounds + 1, insns => do
      match ← firstChange passes insns with
      | none => some insns
      | some after => optimizeWithin passes rounds after

/-- `Compile`; with `optimize` set, `none` means that the optimizer panics or does not stop in the
given number of rounds. -/
def compile (order : MapOrder) (rounds : Nat) (insns : List Instruction) (optimize : Bool) :
    Option (Except Error Program) :=
  match check insns with
  | .error error => some (.error error)
  | .ok () =>
    if optimize then
      (optimizeWithin (optimizerFuncs order) rounds insns).map fun after => .ok ⟨after⟩
    else some (.ok ⟨insns⟩)

end BVisor.Bpf
