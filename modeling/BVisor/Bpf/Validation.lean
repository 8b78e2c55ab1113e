import BVisor.Bpf.Machine

/-! The checks `Compile` makes on an instruction list before it becomes a program. -/

namespace BVisor.Bpf

open Instruction

namespace Instruction

def loadMode (ins : Instruction) : BitVec 16 := ins.opCode &&& Code.loadModeMask
def loadSize (ins : Instruction) : BitVec 16 := ins.opCode &&& Code.loadSizeMask
def aluOperation (ins : Instruction) : BitVec 16 := ins.opCode &&& Code.aluMask
def jumpOperation (ins : Instruction) : BitVec 16 := ins.opCode &&& Code.jmpMask
def aluJmpSource (ins : Instruction) : BitVec 16 := ins.opCode &&& Code.srcAluJmpMask

end Instruction

def checkRegister (ins : Instruction) : Option ErrorCode :=
  if ins.k.toNat ≥ scratchMemRegisters then some .invalidRegister else none

def checkLd (ins : Instruction) : Option ErrorCode :=
  if ins.loadSize = Code.w then
    if ins.loadMode ∉ [Code.imm, Code.abs, Code.ind, Code.mem, Code.len] then some .invalidOpcode
    else if ins.loadMode = Code.mem then checkRegister ins
    else none
  else if ins.loadSize ∈ [Code.h, Code.b] then
    if ins.loadMode ∉ [Code.abs, Code.ind] then some .invalidOpcode else none
  else some .invalidOpcode

def checkLdx (ins : Instruction) : Option ErrorCode :=
  if ins.loadSize = Code.w then
    if ins.loadMode ∉ [Code.imm, Code.mem, Code.len] then some .invalidOpcode
    else if ins.loadMode = Code.mem then checkRegister ins
    else none
  else if ins.loadSize = Code.b then
    if ins.loadMode ≠ Code.msh then some .invalidOpcode else none
  else some .invalidOpcode

def checkStore (ins : Instruction) : Option ErrorCode :=
  if ins.opCode &&& Code.storeUnusedBitsMask ≠ 0 then some .invalidOpcode else checkRegister ins

def checkAlu (ins : Instruction) : Option ErrorCode :=
  if ins.aluOperation ∈ [Code.add, Code.sub, Code.mul, Code.or, Code.and, Code.lsh, Code.rsh, Code.xor] then none
  else if ins.aluOperation ∈ [Code.div, Code.mod] then
    if ins.aluJmpSource = Code.k ∧ ins.k = 0 then some .divisionByZero else none
  else if ins.aluOperation = Code.neg then
    if ins.aluJmpSource ≠ 0 then some .invalidOpcode else none
  else some .invalidOpcode

def checkJmp (count pc : Nat) (ins : Instruction) : Option ErrorCode :=
  if ins.jumpOperation = Code.ja then
    if ins.aluJmpSource ≠ 0 then some .invalidOpcode
    else if pc + ins.k.toNat + 1 ≥ count then some .invalidJumpTarget
    else none
  else if ins.jumpOperation ∈ [Code.jeq, Code.jgt, Code.jge, Code.jset] then
    if pc + ins.jumpIfTrue.toNat + 1 ≥ count then some .invalidJumpTarget
    else if pc + ins.jumpIfFalse.toNat + 1 ≥ count then some .invalidJumpTarget
    else none
  else some .invalidOpcode

def checkRet (ins : Instruction) : Option ErrorCode :=
  if ins.opCode &&& Code.retUnusedBitsMask ≠ 0 then some .invalidOpcode
  else if ins.opCode &&& Code.srcRetMask ∉ [Code.k, Code.a] then some .invalidOpcode
  else none

def checkMisc (ins : Instruction) : Option ErrorCode :=
  if ins.opCode &&& Code.miscMask ∉ [Code.tax, Code.txa] then some .invalidOpcode else none

def checkInstruction (count pc : Nat) (ins : Instruction) : Option ErrorCode :=
  if ins.opCode &&& Code.unusedBitsMask ≠ 0 then some .invalidOpcode
  else if ins.cls = Code.ld then checkLd ins
  else if ins.cls = Code.ldx then checkLdx ins
  else if ins.cls = Code.st ∨ ins.cls = Code.stx then checkStore ins
  else if ins.cls = Code.alu then checkAlu ins
  else if ins.cls = Code.jmp then checkJmp count pc ins
  else if ins.cls = Code.ret then checkRet ins
  else checkMisc ins

def checkInstructions (count : Nat) : Nat → List Instruction → Except Error Unit
  | _, [] => .ok ()
  | pc, ins :: rest =>
    match checkInstruction count pc ins with
    | some code => .error { code, pc }
    | none => checkInstructions count (pc + 1) rest

def check (insns : List Instruction) : Except Error Unit :=
  if insns.length = 0 ∨ insns.length > maxInstructions then
    .error { code := .invalidInstructionCount, pc := insns.length }
  else if insns.getLast?.map Instruction.opCode ∉
      [some (Code.ret ||| Code.k), some (Code.ret ||| Code.a)] then
    .error { code := .invalidEndOfProgram, pc := insns.length - 1 }
  else checkInstructions insns.length 0 insns

/-- The operand restrictions of an operation that do not depend on the instruction's place. -/
def Op.Admits (op : Op) (ins : Instruction) : Prop :=
  match op with
  | .ldMem | .ldxMem | .st | .stx => ins.k.toNat < scratchMemRegisters
  | .alu .div .k | .alu .mod .k => ins.k ≠ 0
  | _ => True

def successors (pc : Nat) (ins : Instruction) : List Nat :=
  if ins.isReturn then []
  else if ins.isJump then ins.jumpOffsets.map (fun offset => pc + offset + 1)
  else [pc + 1]

def Instruction.Valid (ins : Instruction) : Prop :=
  ∃ op, ins.op? = some op ∧ op.Admits ins

/-- `Inside insns live`: control that starts at a place in `live` meets valid instructions only and
never leaves `live`. -/
def Inside (insns : List Instruction) (live : Nat → Prop) : Prop :=
  ∀ pc, live pc → ∃ ins, insns[pc]? = some ins ∧ ins.Valid ∧ ∀ next ∈ successors pc ins, live next

/-- All instructions are valid and all jumps stay in the program. In particular the last
instruction is a return. -/
structure WellFormed (insns : List Instruction) : Prop where
  nonempty : 0 < insns.length
  inside : Inside insns (· < insns.length)

/-! Control flow in terms of the decoded operation. -/

inductive Flavour where
  | plain | direct | conditional | final
deriving DecidableEq

def Op.flavour : Op → Flavour
  | .ja => .direct
  | .jump _ _ => .conditional
  | .retK | .retA => .final
  | _ => .plain

theorem Op.code_classes (op : Op) :
    ((op.code &&& Code.instructionClassMask == Code.ret) = decide (op.flavour = .final)) ∧
    ((op.code &&& Code.instructionClassMask == Code.jmp) =
      decide (op.flavour = .direct ∨ op.flavour = .conditional)) ∧
    (op.flavour = .direct → (op.code &&& Code.jmpMask == Code.ja) = true) ∧
    (op.flavour = .conditional → (op.code &&& Code.jmpMask == Code.ja) = false) := by
  cases op with
  | ldAbs size | ldInd size => cases size <;> decide
  | alu op source => cases op <;> cases source <;> decide
  | jump comparison source => cases comparison <;> cases source <;> decide
  | _ => decide

open Op

namespace Instruction

variable {ins : Instruction} {op : Op}

section

variable (found : ins.op? = some op)
include found

theorem isReturn_eq : ins.isReturn = decide (op.flavour = .final) := by
  rw [isReturn, cls, ← code_of_ofCode? found]
  exact op.code_classes.1

theorem isJump_eq : ins.isJump = decide (op.flavour = .direct ∨ op.flavour = .conditional) := by
  rw [isJump, cls, ← code_of_ofCode? found]
  exact op.code_classes.2.1

theorem isUnconditionalJump_eq : ins.isUnconditionalJump = decide (op.flavour = .direct) := by
  obtain ⟨_, _, direct, conditional⟩ := op.code_classes
  rw [isUnconditionalJump, isJump_eq found, ← code_of_ofCode? found]
  cases flavour : op.flavour <;> simp_all

theorem isConditionalJump_eq : ins.isConditionalJump = decide (op.flavour = .conditional) := by
  obtain ⟨_, _, direct, conditional⟩ := op.code_classes
  rw [isConditionalJump, isJump_eq found, ← code_of_ofCode? found]
  cases flavour : op.flavour <;> simp_all [bne]

theorem successors_eq (pc : Nat) :
    successors pc ins =
      match op.flavour with
      | .plain => [pc + 1]
      | .direct => [pc + ins.k.toNat + 1]
      | .conditional => [pc + ins.jumpIfTrue.toNat + 1, pc + ins.jumpIfFalse.toNat + 1]
      | .final => [] := by
  simp only [successors, jumpOffsets, isReturn_eq found, isJump_eq found, isConditionalJump_eq found]
  cases op.flavour <;> simp

end

end Instruction

/-! `check` accepts exactly the well-formed lists of at most `maxInstructions` instructions. -/

section

variable {count pc : Nat} {ins : Instruction} {insns : List Instruction} {op : Op}

theorem checkInstruction_of_op (found : ins.op? = some op) :
    checkInstruction count pc ins = none ↔
      op.Admits ins ∧ (ins.isJump → ∀ next ∈ successors pc ins, next < count) := by
  rw [isJump_eq found, successors_eq found]
  obtain ⟨opCode, jumpIfTrue, jumpIfFalse, k⟩ := ins
  have code : op.code = opCode := code_of_ofCode? found
  subst code
  cases op with
  | ldAbs size | ldInd size =>
    cases size <;>
      simp +decide [checkInstruction, cls, checkLd, Op.Admits, flavour,
        loadSize, loadMode]
  | alu op source =>
    cases op <;> cases source <;>
      simp +decide [checkInstruction, cls, checkAlu, Op.Admits, flavour,
        aluOperation, aluJmpSource]
  | jump comparison source =>
    cases comparison <;> cases source <;>
      simp +decide [checkInstruction, cls, checkJmp, Op.Admits, flavour,
        jumpOperation] <;>
      split_ifs <;> simp <;> omega
  | _ =>
    simp +decide [checkInstruction, cls, checkLd, checkLdx, checkStore, checkAlu,
      checkJmp, checkRet, checkMisc, checkRegister, Op.Admits, flavour,
      loadSize, loadMode,
      aluOperation, jumpOperation, aluJmpSource]

-- An instruction is rejected for its operation code alone or not at all, so one representative
-- for each code decides which codes are accepted.

theorem checkLd_code (accepted : checkLd ins = none) : checkLd (stmt ins.opCode 1) ≠ some .invalidOpcode := by
  simp only [checkLd, checkRegister, stmt, loadSize, loadMode] at accepted ⊢
  grind

theorem checkLdx_code (accepted : checkLdx ins = none) : checkLdx (stmt ins.opCode 1) ≠ some .invalidOpcode := by
  simp only [checkLdx, checkRegister, stmt, loadSize, loadMode] at accepted ⊢
  grind

theorem checkStore_code (accepted : checkStore ins = none) :
    checkStore (stmt ins.opCode 1) ≠ some .invalidOpcode := by
  simp only [checkStore, checkRegister, stmt] at accepted ⊢
  grind

theorem checkAlu_code (accepted : checkAlu ins = none) : checkAlu (stmt ins.opCode 1) ≠ some .invalidOpcode := by
  have operation : (stmt ins.opCode 1).aluOperation = ins.aluOperation := rfl
  have source : (stmt ins.opCode 1).aluJmpSource = ins.aluJmpSource := rfl
  rw [checkAlu] at accepted
  rw [checkAlu, operation, source]
  generalize ins.aluOperation = operation at *
  generalize ins.aluJmpSource = source at *
  split_ifs at accepted ⊢ <;> simp_all

theorem checkJmp_code (accepted : checkJmp count pc ins = none) :
    checkJmp 3 0 (stmt ins.opCode 1) ≠ some .invalidOpcode := by
  simp only [checkJmp, stmt, jumpOperation, aluJmpSource] at accepted ⊢
  grind

theorem checkRet_code (accepted : checkRet ins = none) : checkRet (stmt ins.opCode 1) ≠ some .invalidOpcode := by
  have same : checkRet (stmt ins.opCode 1) = checkRet ins := rfl
  rw [same, accepted]
  simp

theorem checkMisc_code (accepted : checkMisc ins = none) :
    checkMisc (stmt ins.opCode 1) ≠ some .invalidOpcode := by
  have same : checkMisc (stmt ins.opCode 1) = checkMisc ins := rfl
  rw [same, accepted]
  simp

theorem checkInstruction_code (accepted : checkInstruction count pc ins = none) :
    checkInstruction 3 0 (stmt ins.opCode 1) ≠ some .invalidOpcode := by
  have class_eq : (stmt ins.opCode 1).cls = ins.cls := rfl
  have code_eq : (stmt ins.opCode 1).opCode = ins.opCode := rfl
  rw [checkInstruction] at accepted
  rw [checkInstruction, class_eq, code_eq]
  split_ifs at accepted ⊢
  · exact checkLd_code accepted
  · exact checkLdx_code accepted
  · exact checkStore_code accepted
  · exact checkAlu_code accepted
  · exact checkJmp_code accepted
  · exact checkRet_code accepted
  · exact checkMisc_code accepted

theorem accepted_code : ∀ code : BitVec 8,
    ofCode? (code.setWidth 16) = none →
      checkInstruction 3 0 (stmt (code.setWidth 16) 1) = some .invalidOpcode := by
  decide +kernel

theorem op?_of_checkInstruction (accepted : checkInstruction count pc ins = none) :
    ∃ op, ins.op? = some op := by
  cases missing : ins.op? with
  | some op => exact ⟨op, rfl⟩
  | none =>
    have used : ins.opCode &&& Code.unusedBitsMask = 0 := by
      by_contra unused
      rw [checkInstruction, if_pos unused] at accepted
      cases accepted
    have narrow : (ins.opCode.setWidth 8).setWidth 16 = ins.opCode := by
      ext i bound
      by_cases low : i < 8
      · simp [low, BitVec.getLsbD_eq_getElem bound]
      have bit := congrArg (fun code => code.getLsbD i) used
      have high : Code.unusedBitsMask.getLsbD i = true := by
        have places : 8 ≤ i := by omega
        interval_cases i <;> rfl
      simp only [BitVec.getLsbD_and, high, Bool.and_true] at bit
      simpa [low, BitVec.getLsbD_eq_getElem bound] using bit
    have rejected := accepted_code (ins.opCode.setWidth 8)
    rw [narrow] at rejected
    exact absurd (rejected missing) (checkInstruction_code accepted)

theorem checkInstruction_none :
    checkInstruction count pc ins = none ↔
      ins.Valid ∧ (ins.isJump → ∀ next ∈ successors pc ins, next < count) := by
  constructor
  · intro accepted
    obtain ⟨op, found⟩ := op?_of_checkInstruction accepted
    obtain ⟨admits, targets⟩ := (checkInstruction_of_op found).mp accepted
    exact ⟨⟨op, found, admits⟩, targets⟩
  · rintro ⟨⟨op, found, admits⟩, targets⟩
    exact (checkInstruction_of_op found).mpr ⟨admits, targets⟩

theorem checkInstructions_ok :
    checkInstructions count pc insns = .ok () ↔
      ∀ i ins, insns[i]? = some ins → checkInstruction count (pc + i) ins = none := by
  induction insns generalizing pc with
  | nil => simp [checkInstructions]
  | cons first rest ih =>
    rw [checkInstructions]
    constructor
    · intro accepted i ins found
      split at accepted
      · cases accepted
      rename_i head
      cases i with
      | zero => cases found; exact head
      | succ i =>
        have tail := ih.mp accepted i ins (by simpa using found)
        rwa [Nat.add_right_comm, Nat.add_assoc] at tail
    · intro accepted
      have head := accepted 0 first rfl
      simp only [Nat.add_zero] at head
      simp only [head]
      refine ih.mpr fun i ins found => ?_
      have tail := accepted (i + 1) ins (by simpa using found)
      rwa [Nat.add_right_comm, Nat.add_assoc]

theorem final_iff_return_code (found : ins.op? = some op) :
    op.flavour = .final ↔ ins.opCode = Code.ret ||| Code.k ∨ ins.opCode = Code.ret ||| Code.a := by
  have code : ins.opCode = op.code := (code_of_ofCode? found).symm
  rw [code]
  constructor
  · intro final
    cases op <;> simp_all [Op.flavour, Op.code]
  · rintro (same | same)
    · rw [code_injective (show op.code = retK.code from same)]
      rfl
    · rw [code_injective (show op.code = retA.code from same)]
      rfl

theorem plain_of_not_jump (found : ins.op? = some op) (notJump : ¬ ins.isJump = true)
    (notFinal : op.flavour ≠ .final) : op.flavour = .plain := by
  rw [isJump_eq found] at notJump
  cases flavour : op.flavour <;> simp_all

/-- `Compile` accepts exactly the well-formed lists of at most 4096 instructions. -/
theorem check_ok :
    check insns = .ok () ↔ insns.length ≤ maxInstructions ∧ WellFormed insns := by
  constructor
  · intro accepted
    rw [check] at accepted
    split at accepted
    · cases accepted
    rename_i counted
    split at accepted
    · cases accepted
    rename_i lastReturn
    rw [checkInstructions_ok] at accepted
    refine ⟨by omega, ⟨by omega, fun pc bound => ?_⟩⟩
    have found : insns[pc]? = some insns[pc] := List.getElem?_eq_getElem bound
    have valid := accepted pc insns[pc] found
    rw [Nat.zero_add, checkInstruction_none] at valid
    obtain ⟨⟨op, decoded, admits⟩, targets⟩ := valid
    refine ⟨insns[pc], found, ⟨op, decoded, admits⟩, fun next member => ?_⟩
    by_cases isJump : insns[pc].isJump = true
    · exact targets isJump next member
    by_cases final : op.flavour = .final
    · simp [successors_eq decoded, final] at member
    rw [successors_eq decoded, plain_of_not_jump decoded isJump final] at member
    have notLast : pc + 1 ≠ insns.length := by
      intro last
      have lastIns : insns.getLast? = some insns[pc] := by
        rw [List.getLast?_eq_getElem?, ← found]
        congr 1
        omega
      rw [final_iff_return_code decoded] at final
      simp only [lastIns, Option.map_some, List.mem_cons, Option.some.injEq,
        List.not_mem_nil, or_false, not_not] at lastReturn
      exact final lastReturn
    simp only [List.mem_singleton] at member
    omega
  · rintro ⟨short, nonempty, inside⟩
    rw [check, if_neg (by omega), if_neg, checkInstructions_ok]
    · intro pc ins found
      obtain ⟨bound, rfl⟩ := List.getElem?_eq_some_iff.mp found
      obtain ⟨ins, same, valid, stays⟩ := inside pc bound
      rw [found, Option.some.injEq] at same
      rw [Nat.zero_add, checkInstruction_none, same]
      exact ⟨valid, fun _ => stays⟩
    · obtain ⟨ins, found, ⟨op, decoded, admits⟩, stays⟩ := inside (insns.length - 1) (by omega)
      have final : op.flavour = .final := by
        rw [successors_eq decoded] at stays
        cases flavour : op.flavour with
        | final => rfl
        | plain => have := stays (insns.length - 1 + 1) (by simp [flavour]); omega
        | direct => have := stays _ (by rw [flavour]; exact List.mem_singleton_self _); omega
        | conditional => have := stays _ (by rw [flavour]; exact List.mem_cons_self); omega
      rw [final_iff_return_code decoded] at final
      rw [List.getLast?_eq_getElem?, found]
      simpa [or_iff_not_imp_left] using final

end

end BVisor.Bpf
