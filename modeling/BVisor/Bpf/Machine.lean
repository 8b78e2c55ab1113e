import BVisor.Bpf.Instruction

namespace BVisor.Bpf

inductive ErrorCode where
  | divisionByZero | invalidEndOfProgram | invalidInstructionCount | invalidJumpTarget | invalidLoad
  | invalidOpcode | invalidRegister
deriving DecidableEq

structure Error where
  code : ErrorCode
  pc : Nat
deriving DecidableEq

structure Program where
  instructions : List Instruction
deriving DecidableEq

abbrev Input := List (BitVec 8)

/-- The byte orders; `NativeEndian` is one of the two, depending on the host. -/
inductive Endianness where
  | big | little
deriving DecidableEq

def bigEndianValue (bytes : List (BitVec 8)) : BitVec 32 :=
  bytes.foldl (fun value byte => (value <<< 8) ||| byte.setWidth 32) 0

def Endianness.value : Endianness → List (BitVec 8) → BitVec 32
  | .big, bytes => bigEndianValue bytes
  | .little, bytes => bigEndianValue bytes.reverse

/-- `load32`, `load16` and `load8`: the bounds check is made in 64 bits, so it cannot wrap. -/
def load (endian : Endianness) (input : Input) (size : Size) (off : BitVec 32) : Option (BitVec 32) :=
  if off.toNat + size.bytes > input.length then none
  else some (endian.value ((input.drop off.toNat).take size.bytes))

/-- The registers. `m` is indexed below `scratchMemRegisters` only: `compile` checks each index. -/
structure Machine where
  a : BitVec 32
  x : BitVec 32
  m : Nat → BitVec 32

def Machine.initial : Machine :=
  { a := 0, x := 0, m := fun _ => 0 }

def Machine.store (machine : Machine) (index : Nat) (value : BitVec 32) : Machine :=
  { machine with m := fun i => if i = index then value else machine.m i }

def Source.value (source : Source) (ins : Instruction) (machine : Machine) : BitVec 32 :=
  match source with
  | .k => ins.k
  | .x => machine.x

/-- The arithmetic of Go's `uint32`; a shift by 32 or more gives 0. `none` is a zero divisor. -/
def AluOp.apply (op : AluOp) (a operand : BitVec 32) : Option (BitVec 32) :=
  match op with
  | .add => some (a + operand)
  | .sub => some (a - operand)
  | .mul => some (a * operand)
  | .div => if operand = 0 then none else some (a / operand)
  | .or => some (a ||| operand)
  | .and => some (a &&& operand)
  | .lsh => some (a <<< operand.toNat)
  | .rsh => some (a >>> operand.toNat)
  | .mod => if operand = 0 then none else some (a % operand)
  | .xor => some (a ^^^ operand)

def Comparison.holds (comparison : Comparison) (a operand : BitVec 32) : Bool :=
  match comparison with
  | .jeq => a == operand
  | .jgt => decide (a.toNat > operand.toNat)
  | .jge => decide (a.toNat ≥ operand.toNat)
  | .jset => (a &&& operand) != 0

def conditionalJumpOffset (ins : Instruction) (cond : Bool) : Nat :=
  if cond then ins.jumpIfTrue.toNat else ins.jumpIfFalse.toNat

/-- What one iteration of the interpreter's loop does: `next skip` continues at `pc + skip + 1`. -/
inductive Effect where
  | next (skip : Nat) (machine : Machine)
  | done (value : BitVec 32)
  | fail (code : ErrorCode)

/-- Continue after a load with the register file that `write` makes of the loaded value. -/
def Effect.ofLoad (loaded : Option (BitVec 32)) (write : BitVec 32 → Machine) : Effect :=
  match loaded with
  | none => .fail .invalidLoad
  | some value => .next 0 (write value)

def Op.step (op : Op) (endian : Endianness) (input : Input) (ins : Instruction) (machine : Machine) : Effect :=
  match op with
  | .ldImm => .next 0 { machine with a := ins.k }
  | .ldAbs size =>
    .ofLoad (load endian input size ins.k) fun value => { machine with a := value }
  | .ldInd size =>
    .ofLoad (load endian input size (machine.x + ins.k)) fun value => { machine with a := value }
  | .ldMem => .next 0 { machine with a := machine.m ins.k.toNat }
  | .ldLen => .next 0 { machine with a := BitVec.ofNat 32 input.length }
  | .ldxImm => .next 0 { machine with x := ins.k }
  | .ldxMem => .next 0 { machine with x := machine.m ins.k.toNat }
  | .ldxLen => .next 0 { machine with x := BitVec.ofNat 32 input.length }
  | .ldxMsh =>
    .ofLoad (load endian input .b ins.k) fun value =>
      { machine with x := 4 * (value &&& 0xf) }
  | .st => .next 0 (machine.store ins.k.toNat machine.a)
  | .stx => .next 0 (machine.store ins.k.toNat machine.x)
  | .alu op source =>
    match op.apply machine.a (source.value ins machine) with
    | none => .fail .divisionByZero
    | some value => .next 0 { machine with a := value }
  | .neg => .next 0 { machine with a := -machine.a }
  | .ja => .next ins.k.toNat machine
  | .jump comparison source =>
    .next (conditionalJumpOffset ins (comparison.holds machine.a (source.value ins machine))) machine
  | .retK => .done ins.k
  | .retA => .done machine.a
  | .tax => .next 0 { machine with a := machine.x }
  | .txa => .next 0 { machine with x := machine.a }

def step (endian : Endianness) (input : Input) (ins : Instruction) (machine : Machine) : Effect :=
  match ins.op? with
  | none => .fail .invalidOpcode
  | some op => op.step endian input ins machine

/-- The loop of `Exec`. The counter is at least the number of instructions from `pc` on, and every
iteration moves `pc` forward, so it never ends the loop early. -/
def execLoop (endian : Endianness) (input : Input) (instructions : List Instruction) :
    Nat → Machine → Nat → Except Error (BitVec 32)
  | 0, _, pc => .error { code := .invalidEndOfProgram, pc }
  | count + 1, machine, pc =>
    match instructions[pc]? with
    | none => .error { code := .invalidEndOfProgram, pc }
    | some ins =>
      match step endian input ins machine with
      | .next skip after => execLoop endian input instructions count after (pc + skip + 1)
      | .done value => .ok value
      | .fail code => .error { code, pc }

def exec (endian : Endianness) (program : Program) (input : Input) : Except Error (BitVec 32) :=
  execLoop endian input program.instructions program.instructions.length .initial 0

def outcome (result : Except Error (BitVec 32)) : Except ErrorCode (BitVec 32) :=
  result.mapError Error.code

end BVisor.Bpf
