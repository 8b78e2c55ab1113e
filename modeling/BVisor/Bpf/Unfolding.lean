import BVisor.Bpf.Validation
import BVisor.Data.CodeTree

/-! A program as the tree of its control flow.

Jumps of BPF go forward, so the control flow of a program unfolds to a finite tree. The tree keeps
the places and operands of plain instructions and forgets how control gets from one to the next.
-/

namespace BVisor.Bpf

open Data

inductive Ending where
  | constant (value : BitVec 32)
  | registerA | offEnd
deriving DecidableEq

abbrev Action := Nat × Instruction

abbrev Condition := BitVec 16 × BitVec 32

abbrev Tree := CodeTree Action Condition Ending

def Instruction.ending (ins : Instruction) : Ending :=
  if ins.opCode = Code.ret ||| Code.a then .registerA else .constant ins.k

def codeTree (insns : List Instruction) (pc : Nat) : Tree :=
  match found : insns[pc]? with
  | none => .leaf .offEnd
  | some ins =>
    have : pc < insns.length := (List.getElem?_eq_some_iff.mp found).1
    if ins.isReturn then .leaf ins.ending
    else if ins.isUnconditionalJump then codeTree insns (pc + ins.k.toNat + 1)
    else if ins.isConditionalJump then
      .decideBy (ins.opCode, ins.k) (codeTree insns (pc + ins.jumpIfTrue.toNat + 1))
        (codeTree insns (pc + ins.jumpIfFalse.toNat + 1))
    else .act (pc, ins) (codeTree insns (pc + 1))
termination_by insns.length - pc

def node (tree : Nat → Tree) (pc : Nat) (ins : Instruction) : Tree :=
  if ins.isReturn then .leaf ins.ending
  else if ins.isUnconditionalJump then tree (pc + ins.k.toNat + 1)
  else if ins.isConditionalJump then
    .decideBy (ins.opCode, ins.k) (tree (pc + ins.jumpIfTrue.toNat + 1)) (tree (pc + ins.jumpIfFalse.toNat + 1))
  else .act (pc, ins) (tree (pc + 1))

open Instruction

section Equations

variable {insns : List Instruction} {pc : Nat} {ins : Instruction} {op : Op}

theorem codeTree_offEnd (outside : insns.length ≤ pc) : codeTree insns pc = .leaf .offEnd := by
  rw [codeTree]
  split
  · rfl
  · rename_i found
    have := (List.getElem?_eq_some_iff.mp found).1
    omega

theorem codeTree_node (found : insns[pc]? = some ins) : codeTree insns pc = node (codeTree insns) pc ins := by
  rw [codeTree]
  split
  · rename_i missing
    rw [found] at missing
    cases missing
  · rename_i other same
    obtain rfl : ins = other := by rw [found] at same; exact Option.some.inj same
    rfl

theorem node_congr {first second : Nat → Tree} (same : ∀ next, pc < next → first next = second next) :
    node first pc ins = node second pc ins := by
  simp only [node]
  rw [same _ (by omega), same _ (by omega), same _ (by omega), same (pc + 1) (by omega)]

theorem node_eq (decoded : ins.op? = some op) (tree : Nat → Tree) :
    node tree pc ins =
      match op.flavour with
      | .plain => .act (pc, ins) (tree (pc + 1))
      | .direct => tree (pc + ins.k.toNat + 1)
      | .conditional =>
        .decideBy (ins.opCode, ins.k) (tree (pc + ins.jumpIfTrue.toNat + 1))
          (tree (pc + ins.jumpIfFalse.toNat + 1))
      | .final => .leaf ins.ending := by
  rw [node, isReturn_eq decoded, isUnconditionalJump_eq decoded,
    isConditionalJump_eq decoded]
  cases op.flavour <;> simp

end Equations

section Meaning

variable (endian : Endianness) (input : Input)

def runAction (action : Action) (machine : Machine) : Except ErrorCode Machine :=
  match step endian input action.2 machine with
  | .next _ after => .ok after
  | .done _ => .ok machine
  | .fail code => .error code

def holdsFor (condition : Condition) (machine : Machine) : Bool :=
  match Op.ofCode? condition.1 with
  | some (.jump comparison .k) => comparison.holds machine.a condition.2
  | some (.jump comparison .x) => comparison.holds machine.a machine.x
  | _ => false

def finishWith (ending : Ending) (machine : Machine) : Except ErrorCode (BitVec 32) :=
  match ending with
  | .constant value => .ok value
  | .registerA => .ok machine.a
  | .offEnd => .error .invalidEndOfProgram

def Tree.value (tree : Tree) (machine : Machine) : Except ErrorCode (BitVec 32) :=
  tree.eval (runAction endian input) holdsFor finishWith machine

end Meaning

section Step

variable {endian : Endianness} {input : Input} {ins : Instruction} {op : Op} {machine : Machine}

theorem step_eq (decoded : ins.op? = some op) :
    step endian input ins machine = op.step endian input ins machine := by
  simp only [step, decoded]

variable (endian input machine) in
theorem step_plain (decoded : ins.op? = some op) (plain : op.flavour = .plain) :
    (∃ after, step endian input ins machine = .next 0 after) ∨
      ∃ code, step endian input ins machine = .fail code := by
  rw [step_eq decoded]
  cases op with
  | ldAbs size | ldInd size =>
    simp only [Op.step, Effect.ofLoad]
    split <;> simp
  | ldxMsh =>
    simp only [Op.step, Effect.ofLoad]
    split <;> simp
  | alu op source =>
    simp only [Op.step]
    split <;> simp
  | ja | jump comparison source | retK | retA => cases plain
  | _ => exact .inl ⟨_, rfl⟩

theorem step_direct (decoded : ins.op? = some op) (direct : op.flavour = .direct) :
    step endian input ins machine = .next ins.k.toNat machine := by
  rw [step_eq decoded]
  cases op <;> first | rfl | cases direct

theorem step_conditional (decoded : ins.op? = some op) (conditional : op.flavour = .conditional) :
    step endian input ins machine =
      .next (conditionalJumpOffset ins (holdsFor (ins.opCode, ins.k) machine)) machine := by
  rw [step_eq decoded]
  cases op with
  | jump comparison source =>
    have code : Op.ofCode? ins.opCode = some (.jump comparison source) := decoded
    cases source <;> simp only [Op.step, holdsFor, code, Source.value]
  | _ => cases conditional

variable (endian input machine) in
theorem step_final (decoded : ins.op? = some op) (final : op.flavour = .final) :
    ∃ value, step endian input ins machine = .done value ∧
      finishWith ins.ending machine = .ok value := by
  have code := Op.code_of_ofCode? decoded
  rw [step_eq decoded]
  cases op with
  | retK =>
    refine ⟨_, rfl, ?_⟩
    rw [ending, ← code, if_neg (by decide)]
    rfl
  | retA =>
    refine ⟨_, rfl, ?_⟩
    rw [ending, ← code, if_pos (by decide)]
    rfl
  | _ => cases final

end Step

variable {insns : List Instruction} {endian : Endianness} {input : Input}

theorem execLoop_codeTree
    {live : Nat → Prop} (inside : Inside insns live) {count pc : Nat} {machine : Machine}
    (start : live pc) (enough : insns.length ≤ pc + count) :
    outcome (execLoop endian input insns count machine pc) =
      Tree.value endian input (codeTree insns pc) machine := by
  induction count generalizing machine pc with
  | zero =>
    obtain ⟨ins, found, _⟩ := inside pc start
    have := (List.getElem?_eq_some_iff.mp found).1
    omega
  | succ count ih =>
    obtain ⟨ins, found, ⟨op, decoded, _⟩, stays⟩ := inside pc start
    rw [successors_eq decoded] at stays
    rw [codeTree_node found, node_eq decoded]
    simp only [execLoop, found, Tree.value]
    cases flavour : op.flavour with
    | plain =>
      simp only [flavour, List.mem_singleton, forall_eq] at stays
      simp only [CodeTree.eval, runAction]
      rcases step_plain endian input machine decoded flavour with ⟨after, stepped⟩ | ⟨code, stepped⟩
      · simp only [stepped, Nat.add_zero]
        exact ih stays (by omega)
      · simp only [stepped]
        rfl
    | direct =>
      simp only [flavour, List.mem_singleton, forall_eq] at stays
      simp only [step_direct decoded flavour]
      exact ih stays (by omega)
    | conditional =>
      simp only [flavour, List.mem_cons, List.not_mem_nil, or_false, forall_eq_or_imp, forall_eq] at stays
      simp only [step_conditional decoded flavour, CodeTree.eval_decideBy, conditionalJumpOffset]
      split
      · exact ih stays.1 (by omega)
      · exact ih stays.2 (by omega)
    | final =>
      obtain ⟨value, stepped, finished⟩ := step_final endian input machine decoded flavour
      simp only [stepped, CodeTree.eval, finished]
      rfl

theorem exec_codeTree
    (wellFormed : WellFormed insns) :
    outcome (exec endian ⟨insns⟩ input) =
      Tree.value endian input (codeTree insns 0) .initial :=
  execLoop_codeTree wellFormed.inside wellFormed.nonempty (by simp)

end BVisor.Bpf
