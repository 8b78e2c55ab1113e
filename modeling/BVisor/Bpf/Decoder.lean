import BVisor.Bpf.Optimizer.Optimize

/-! The text that `pkg/bpf/decoder.go` prints for an instruction, read as a register transfer. -/

namespace BVisor.Bpf

open Instruction Op

inductive Operand where
  | const (k : BitVec 32)
  | a | x

/-- What an assignment to a register prints on its right. -/
inductive Expr where
  | plain (operand : Operand)
  | mem (k : BitVec 32) -- M[k]
  | len
  | packet (indexed : Bool) (size : Size) (k : BitVec 32) -- P[k:size], or P[X+k:size] when indexed
  | msh (k : BitVec 32) -- 4*(P[k:1]&0xf)
  | alu (op : AluOp) (operand : Operand) -- A op operand
  | neg -- -A

inductive Text where
  | setA (expr : Expr) -- A <- expr
  | setX (expr : Expr) -- X <- expr
  | store (k : BitVec 32) (operand : Operand) -- M[k] <- operand
  | jump (k : BitVec 32) -- pc += k
  | branch (comparison : Comparison) (operand : Operand) (jt jf : BitVec 8) -- pc += (A op operand) ? jt : jf
  | ret (operand : Operand) -- ret operand

section

variable (ins : Instruction)

def decodeLdSize : Option Size :=
  [Size.w, .h, .b].find? (·.code == ins.loadSize)

def decodeLd : Option Expr :=
  if ins.loadMode = Code.imm then some (.plain (.const ins.k))
  else if ins.loadMode = Code.abs then (decodeLdSize ins).map (.packet false · ins.k)
  else if ins.loadMode = Code.ind then (decodeLdSize ins).map (.packet true · ins.k)
  else if ins.loadMode = Code.mem then some (.mem ins.k)
  else if ins.loadMode = Code.len then some .len
  else none

def decodeLdx : Option Expr :=
  if ins.loadMode = Code.imm then some (.plain (.const ins.k))
  else if ins.loadMode = Code.mem then some (.mem ins.k)
  else if ins.loadMode = Code.len then some .len
  else if ins.loadMode = Code.msh then some (.msh ins.k)
  else none

def decodeSource : Option Operand :=
  if ins.aluJmpSource = Code.k then some (.const ins.k)
  else if ins.aluJmpSource = Code.x then some .x
  else none

def decodeAlu : Option Expr :=
  if ins.aluOperation = Code.neg then some .neg
  else do
    let op ← [AluOp.add, .sub, .mul, .div, .or, .and, .lsh, .rsh, .mod, .xor].find?
      (·.code == ins.aluOperation)
    return .alu op (← decodeSource ins)

def decodeJmp : Option Text :=
  if ins.jumpOperation = Code.ja then some (.jump ins.k)
  else do
    let comparison ← [Comparison.jeq, .jgt, .jge, .jset].find? (·.code == ins.jumpOperation)
    return .branch comparison (← decodeSource ins) ins.jumpIfTrue ins.jumpIfFalse

def decodeRet : Option Text :=
  if ins.opCode &&& Code.srcRetMask = Code.k then some (.ret (.const ins.k))
  else if ins.opCode &&& Code.srcRetMask = Code.a then some (.ret .a)
  else none

def decodeMisc : Option Text :=
  if ins.opCode &&& Code.miscMask = Code.tax then some (.setX (.plain .a))
  else if ins.opCode &&& Code.miscMask = Code.txa then some (.setA (.plain .x))
  else none

/-- `decode`, with `none` for an error. The mask leaves eight classes: the default is never taken. -/
def decode : Option Text :=
  if ins.cls = Code.ld then (decodeLd ins).map .setA
  else if ins.cls = Code.ldx then (decodeLdx ins).map .setX
  else if ins.cls = Code.st then some (.store ins.k .a)
  else if ins.cls = Code.stx then some (.store ins.k .x)
  else if ins.cls = Code.alu then (decodeAlu ins).map .setA
  else if ins.cls = Code.jmp then decodeJmp ins
  else if ins.cls = Code.ret then decodeRet ins
  else decodeMisc ins

end

/-! The meaning of the text. Its arithmetic is that of the 32-bit registers; a zero divisor or a read
outside the packet ends the program, as in the interpreter. -/

section

variable (endian : Endianness) (input : Input)

def Operand.value (machine : Machine) : Operand → BitVec 32
  | .const k => k
  | .a => machine.a
  | .x => machine.x

def Expr.assign (machine : Machine) (write : BitVec 32 → Machine) : Expr → Effect
  | .plain operand => .next 0 (write (operand.value machine))
  | .mem k => .next 0 (write (machine.m k.toNat))
  | .len => .next 0 (write (BitVec.ofNat 32 input.length))
  | .packet indexed size k => .ofLoad (load endian input size (if indexed then machine.x + k else k)) write
  | .msh k => .ofLoad (load endian input .b k) fun value => write (4 * (value &&& 0xf))
  | .alu op operand =>
    match op.apply machine.a (operand.value machine) with
    | none => .fail .divisionByZero
    | some value => .next 0 (write value)
  | .neg => .next 0 (write (-machine.a))

def Text.effect (machine : Machine) : Text → Effect
  | .setA expr => expr.assign endian input machine fun value => { machine with a := value }
  | .setX expr => expr.assign endian input machine fun value => { machine with x := value }
  | .store k operand => .next 0 (machine.store k.toNat (operand.value machine))
  | .jump k => .next k.toNat machine
  | .branch comparison operand jt jf =>
    .next (if comparison.holds machine.a (operand.value machine) then jt.toNat else jf.toNat) machine
  | .ret operand => .done (operand.value machine)

def textStep (ins : Instruction) (machine : Machine) : Effect :=
  match decode ins with
  | none => .fail .invalidOpcode
  | some text => text.effect endian input machine

variable (instructions : List Instruction)

/-- The loop of `Exec`, where each instruction does what its text says. -/
def textLoop : Nat → Machine → Nat → Except Error (BitVec 32)
  | 0, _, pc => .error { code := .invalidEndOfProgram, pc }
  | count + 1, machine, pc =>
    match instructions[pc]? with
    | none => .error { code := .invalidEndOfProgram, pc }
    | some ins =>
      match textStep endian input ins machine with
      | .next skip after => textLoop count after (pc + skip + 1)
      | .done value => .ok value
      | .fail code => .error { code, pc }

def textExec (program : Program) : Except Error (BitVec 32) :=
  textLoop endian input program.instructions program.instructions.length .initial 0

/-- `Exec` comes to `pc` with the registers `machine`. -/
inductive Visits : Nat → Machine → Prop
  | start : Visits 0 .initial
  | next {pc skip : Nat} {ins : Instruction} {machine after : Machine} (visited : Visits pc machine)
      (found : instructions[pc]? = some ins) (stepped : step endian input ins machine = .next skip after) :
      Visits (pc + skip + 1) after

end

/-- Where the instruction copies one register to the other, both hold one value. -/
def Level (ins : Instruction) (machine : Machine) : Prop :=
  ins.op? = some .tax ∨ ins.op? = some .txa → machine.a = machine.x

variable {endian : Endianness} {input : Input} {instructions after : List Instruction} {ins : Instruction}
  {op : Op} {machine : Machine} {order : MapOrder} {rounds : Nat} {optimize : Bool} {program : Program}

theorem textStep_eq_iff (found : ins.op? = some op) :
    textStep endian input ins machine = step endian input ins machine ↔ Level ins machine := by
  obtain ⟨opCode, jumpIfTrue, jumpIfFalse, k⟩ := ins
  have code : op.code = opCode := code_of_ofCode? found
  subst code
  rw [step, Level, found, textStep]
  cases op with
  | ldAbs size | ldInd size =>
    cases size <;>
      simp +decide [decode, cls, decodeLd, decodeLdSize, loadMode, loadSize, Text.effect, Expr.assign, Op.step]
  | alu op source =>
    cases op <;> cases source <;>
      simp +decide [decode, cls, decodeAlu, decodeSource, aluOperation, aluJmpSource, Text.effect,
        Expr.assign, Op.step] <;>
      rfl
  | jump comparison source =>
    cases comparison <;> cases source <;>
      simp +decide [decode, cls, decodeJmp, decodeSource, jumpOperation, aluJmpSource, Text.effect, Op.step] <;>
      rfl
  | txa => simp +decide [decode, cls, decodeMisc, Text.effect, Expr.assign, Operand.value, Op.step, eq_comm]
  | _ =>
    simp +decide [decode, cls, decodeLd, decodeLdx, decodeAlu, decodeJmp, decodeRet, decodeMisc, loadMode,
      aluOperation, jumpOperation, Text.effect, Expr.assign, Operand.value, Op.step]

theorem textLoop_eq {count pc : Nat}
    (agrees : ∀ pc ins machine, Visits endian input instructions pc machine → instructions[pc]? = some ins →
      textStep endian input ins machine = step endian input ins machine)
    (visited : Visits endian input instructions pc machine) :
    textLoop endian input instructions count machine pc =
      execLoop endian input instructions count machine pc := by
  induction count generalizing machine pc with
  | zero => rfl
  | succ count ih =>
    rw [textLoop, execLoop]
    cases found : instructions[pc]? with
    | none => rfl
    | some ins =>
      simp only [agrees pc ins machine visited found]
      cases stepped : step endian input ins machine with
      | next skip after => exact ih (visited.next found stepped)
      | done value => rfl
      | fail code => rfl

section

variable (visits : ∀ insns groups, (order insns groups).Perm groups)
include visits

theorem optimizeWithin_wellFormed (wellFormed : WellFormed instructions)
    (stops : optimizeWithin (optimizerFuncs order) rounds instructions = some after) : WellFormed after := by
  induction rounds generalizing instructions with
  | zero => cases stops
  | succ rounds ih =>
    obtain ⟨result, round, spec⟩ := round_optimizerFuncs visits wellFormed
    simp only [optimizeWithin, round, Option.bind_eq_bind, Option.bind_some] at stops
    cases result with
    | none =>
      cases stops
      exact wellFormed
    | some next => exact ih (spec next rfl).1.wellFormed stops

theorem compile_wellFormed (compiled : compile order rounds instructions optimize = some (.ok program)) :
    WellFormed program.instructions := by
  rw [compile] at compiled
  split at compiled
  · cases compiled
  rename_i accepted
  obtain ⟨_, wellFormed⟩ := check_ok.mp accepted
  split at compiled
  · obtain ⟨after, stops, same⟩ := Option.map_eq_some_iff.mp compiled
    cases same
    exact optimizeWithin_wellFormed visits wellFormed stops
  · cases compiled
    exact wellFormed

/-- The decoder prints the two copies between the registers the wrong way round, and every other
instruction as the interpreter executes it. -/
theorem text_agrees (compiled : compile order rounds instructions optimize = some (.ok program)) :
    (∀ ins ∈ program.instructions, ∀ machine,
      textStep endian input ins machine = step endian input ins machine ↔ Level ins machine) ∧
    ((∀ pc ins machine, Visits endian input program.instructions pc machine →
      program.instructions[pc]? = some ins → Level ins machine) →
        textExec endian input program = exec endian program input) := by
  have agrees : ∀ ins ∈ program.instructions, ∀ machine,
      textStep endian input ins machine = step endian input ins machine ↔ Level ins machine := by
    intro ins member machine
    obtain ⟨pc, bound, rfl⟩ := List.mem_iff_getElem.mp member
    obtain ⟨ins, found, ⟨op, decoded, _⟩, _⟩ := (compile_wellFormed visits compiled).inside pc bound
    rw [List.getElem?_eq_getElem bound, Option.some.injEq] at found
    exact textStep_eq_iff (found ▸ decoded)
  refine ⟨agrees, fun level => textLoop_eq (fun pc ins machine visited found => ?_) .start⟩
  exact (agrees ins (List.mem_of_getElem? found) machine).mpr (level pc ins machine visited found)

end

/-- A copy between registers that hold one value. -/
def levelCopy : List Instruction :=
  [stmt (Code.ld ||| Code.imm) 5, stmt (Code.ldx ||| Code.imm) 5, stmt (Code.misc ||| Code.tax) 0,
    stmt (Code.ret ||| Code.a) 0]

theorem levelCopy_text_agrees :
    textExec .big [] ⟨levelCopy⟩ = exec .big ⟨levelCopy⟩ [] ∧ exec .big ⟨levelCopy⟩ [] = .ok 5 := by
  have compiled : compile (fun _ groups => groups) 0 levelCopy false = some (.ok ⟨levelCopy⟩) := by decide
  have known {pc : Nat} {machine : Machine} (visited : Visits .big [] levelCopy pc machine) :
      (pc = 1 → machine.a = 5) ∧ (pc = 2 → machine.a = 5 ∧ machine.x = 5) := by
    induction visited with
    | start => decide
    | @next pc skip ins machine after visited found stepped ih =>
      rcases pc with _ | _ | _ | _ | pc <;> cases found <;> cases stepped
      all_goals simp_all [stmt]
  refine ⟨(text_agrees (fun _ _ => .refl _) compiled).2 fun pc ins machine visited found copies => ?_, by decide⟩
  rcases pc with _ | _ | _ | _ | pc <;> cases found
  · exact absurd copies (by decide)
  · exact absurd copies (by decide)
  · obtain ⟨a, x⟩ := (known visited).2 rfl
    rw [a, x]
  · exact absurd copies (by decide)

/-- With 5 in A and 0 in X, the interpreter's `Misc|Tax` clears A; its text `X <- A` keeps it. -/
theorem copied_backwards :
    ∃ program, compile (fun _ groups => groups) 0 program.instructions false = some (.ok program) ∧
      exec .big program [] = .ok 0 ∧ textExec .big [] program = .ok 5 :=
  ⟨⟨[stmt (Code.ld ||| Code.imm) 5, stmt (Code.misc ||| Code.tax) 0, stmt (Code.ret ||| Code.a) 0]⟩, by decide⟩

end BVisor.Bpf
