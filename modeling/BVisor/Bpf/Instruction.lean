import Mathlib

namespace BVisor.Bpf

/-! Parts of an instruction's operation code, as in `pkg/bpf/bpf.go`. -/

namespace Code

def ld : BitVec 16 := 0x00
def ldx : BitVec 16 := 0x01
def st : BitVec 16 := 0x02
def stx : BitVec 16 := 0x03
def alu : BitVec 16 := 0x04
def jmp : BitVec 16 := 0x05
def ret : BitVec 16 := 0x06
def misc : BitVec 16 := 0x07
def instructionClassMask : BitVec 16 := 0x07

def w : BitVec 16 := 0x00
def h : BitVec 16 := 0x08
def b : BitVec 16 := 0x10
def loadSizeMask : BitVec 16 := 0x18

def imm : BitVec 16 := 0x00
def abs : BitVec 16 := 0x20
def ind : BitVec 16 := 0x40
def mem : BitVec 16 := 0x60
def len : BitVec 16 := 0x80
def msh : BitVec 16 := 0xa0
def loadModeMask : BitVec 16 := 0xe0

def k : BitVec 16 := 0x00
def x : BitVec 16 := 0x08
def a : BitVec 16 := 0x10
def operandMask : BitVec 16 := k ||| x ||| a
def srcAluJmpMask : BitVec 16 := 0x08
def srcRetMask : BitVec 16 := 0x18

def add : BitVec 16 := 0x00
def sub : BitVec 16 := 0x10
def mul : BitVec 16 := 0x20
def div : BitVec 16 := 0x30
def or : BitVec 16 := 0x40
def and : BitVec 16 := 0x50
def lsh : BitVec 16 := 0x60
def rsh : BitVec 16 := 0x70
def neg : BitVec 16 := 0x80
def mod : BitVec 16 := 0x90
def xor : BitVec 16 := 0xa0
def aluMask : BitVec 16 := 0xf0

def ja : BitVec 16 := 0x00
def jeq : BitVec 16 := 0x10
def jgt : BitVec 16 := 0x20
def jge : BitVec 16 := 0x30
def jset : BitVec 16 := 0x40
def jmpMask : BitVec 16 := 0xf0

def tax : BitVec 16 := 0x00
def txa : BitVec 16 := 0x80
def miscMask : BitVec 16 := 0xf8

def unusedBitsMask : BitVec 16 := 0xff00
def storeUnusedBitsMask : BitVec 16 := 0xf8
def retUnusedBitsMask : BitVec 16 := 0xe0

end Code

def maxInstructions : Nat := 4096
def scratchMemRegisters : Nat := 16

/-- `linux.BPFInstruction`. -/
structure Instruction where
  opCode : BitVec 16
  jumpIfTrue : BitVec 8
  jumpIfFalse : BitVec 8
  k : BitVec 32
deriving DecidableEq, Inhabited

def stmt (code : BitVec 16) (k : BitVec 32) : Instruction :=
  { opCode := code, jumpIfTrue := 0, jumpIfFalse := 0, k }

def jump (code : BitVec 16) (k : BitVec 32) (jt jf : BitVec 8) : Instruction :=
  { opCode := code, jumpIfTrue := jt, jumpIfFalse := jf, k }

inductive Size where
  | w | h | b
deriving DecidableEq

def Size.code : Size → BitVec 16
  | .w => Code.w
  | .h => Code.h
  | .b => Code.b

def Size.bytes : Size → Nat
  | .w => 4
  | .h => 2
  | .b => 1

inductive Source where
  | k | x
deriving DecidableEq

def Source.code : Source → BitVec 16
  | .k => Code.k
  | .x => Code.x

inductive AluOp where
  | add | sub | mul | div | or | and | lsh | rsh | mod | xor
deriving DecidableEq

def AluOp.code : AluOp → BitVec 16
  | .add => Code.add
  | .sub => Code.sub
  | .mul => Code.mul
  | .div => Code.div
  | .or => Code.or
  | .and => Code.and
  | .lsh => Code.lsh
  | .rsh => Code.rsh
  | .mod => Code.mod
  | .xor => Code.xor

inductive Comparison where
  | jeq | jgt | jge | jset
deriving DecidableEq

def Comparison.code : Comparison → BitVec 16
  | .jeq => Code.jeq
  | .jgt => Code.jgt
  | .jge => Code.jge
  | .jset => Code.jset

/-- The labels of the interpreter's `switch i.OpCode`. -/
inductive Op where
  | ldImm
  | ldAbs (size : Size)
  | ldInd (size : Size)
  | ldMem | ldLen | ldxImm | ldxMem | ldxLen | ldxMsh | st | stx
  | alu (op : AluOp) (source : Source)
  | neg | ja
  | jump (comparison : Comparison) (source : Source)
  | retK | retA | tax | txa
deriving DecidableEq

def Op.code : Op → BitVec 16
  | .ldImm => Code.ld ||| Code.imm ||| Code.w
  | .ldAbs size => Code.ld ||| Code.abs ||| size.code
  | .ldInd size => Code.ld ||| Code.ind ||| size.code
  | .ldMem => Code.ld ||| Code.mem ||| Code.w
  | .ldLen => Code.ld ||| Code.len ||| Code.w
  | .ldxImm => Code.ldx ||| Code.imm ||| Code.w
  | .ldxMem => Code.ldx ||| Code.mem ||| Code.w
  | .ldxLen => Code.ldx ||| Code.len ||| Code.w
  | .ldxMsh => Code.ldx ||| Code.msh ||| Code.b
  | .st => Code.st
  | .stx => Code.stx
  | .alu op source => Code.alu ||| op.code ||| source.code
  | .neg => Code.alu ||| Code.neg
  | .ja => Code.jmp ||| Code.ja
  | .jump comparison source => Code.jmp ||| comparison.code ||| source.code
  | .retK => Code.ret ||| Code.k
  | .retA => Code.ret ||| Code.a
  | .tax => Code.misc ||| Code.tax
  | .txa => Code.misc ||| Code.txa

def Op.all : List Op :=
  [.ldImm, .ldAbs .w, .ldAbs .h, .ldAbs .b, .ldInd .w, .ldInd .h, .ldInd .b, .ldMem, .ldLen,
    .ldxImm, .ldxMem, .ldxLen, .ldxMsh, .st, .stx] ++
  [AluOp.add, .sub, .mul, .div, .or, .and, .lsh, .rsh, .mod, .xor].flatMap (fun op => [.alu op .k, .alu op .x]) ++
  [.neg, .ja] ++
  [Comparison.jeq, .jgt, .jge, .jset].flatMap (fun comparison => [.jump comparison .k, .jump comparison .x]) ++
  [.retK, .retA, .tax, .txa]

/-- The case the interpreter's switch takes, `none` for its default. -/
def Op.ofCode? (code : BitVec 16) : Option Op :=
  Op.all.find? (fun op => op.code == code)

theorem Op.ofCode?_code (op : Op) : Op.ofCode? op.code = some op := by
  cases op with
  | ldAbs size | ldInd size => cases size <;> decide
  | alu op source => cases op <;> cases source <;> decide
  | jump comparison source => cases comparison <;> cases source <;> decide
  | _ => decide

theorem Op.code_of_ofCode? {code : BitVec 16} {op : Op} (found : Op.ofCode? code = some op) : op.code = code := by
  simpa using List.find?_some found

theorem Op.code_injective {first second : Op} (same : first.code = second.code) : first = second := by
  have found := first.ofCode?_code
  rw [same, second.ofCode?_code, Option.some.injEq] at found
  exact found.symm

namespace Instruction

def op? (ins : Instruction) : Option Op :=
  Op.ofCode? ins.opCode

/-- `ins.OpCode & instructionClassMask`. -/
def cls (ins : Instruction) : BitVec 16 :=
  ins.opCode &&& Code.instructionClassMask

def isReturn (ins : Instruction) : Bool :=
  ins.cls == Code.ret

def isJump (ins : Instruction) : Bool :=
  ins.cls == Code.jmp

def isConditionalJump (ins : Instruction) : Bool :=
  ins.isJump && (ins.opCode &&& Code.jmpMask) != Code.ja

def isUnconditionalJump (ins : Instruction) : Bool :=
  ins.isJump && (ins.opCode &&& Code.jmpMask) == Code.ja

def equal (ins other : Instruction) : Bool :=
  if ins.opCode ≠ other.opCode then false
  else if ins.cls = Code.ld ∨ ins.cls = Code.ldx then
    if ins.opCode &&& Code.loadModeMask = Code.len then true else ins.k == other.k
  else if ins.cls = Code.st ∨ ins.cls = Code.stx then ins.k == other.k
  else if ins.cls = Code.alu then
    if ins.opCode = Code.alu ||| Code.neg then true
    else if ins.opCode &&& Code.operandMask = Code.x then true
    else if ins.opCode &&& Code.operandMask = Code.k then ins.k == other.k
    else ins == other
  else if ins.cls = Code.ret then
    if ins.opCode = Code.ret ||| Code.a then true
    else if ins.opCode = Code.ret ||| Code.k then ins.k == other.k
    else ins == other
  else if ins.cls = Code.jmp then
    if ins.isUnconditionalJump then ins.k == other.k
    else if ins.opCode &&& Code.operandMask = Code.x then
      ins.jumpIfTrue == other.jumpIfTrue && ins.jumpIfFalse == other.jumpIfFalse
    else ins == other
  else if ins.opCode = Code.misc ||| Code.tax ∨ ins.opCode = Code.misc ||| Code.txa then true
  else ins == other

/-- `JumpOffsets`, without the kind each offset is tagged with. -/
def jumpOffsets (ins : Instruction) : List Nat :=
  if !ins.isJump then []
  else if ins.isConditionalJump then [ins.jumpIfTrue.toNat, ins.jumpIfFalse.toNat]
  else [ins.k.toNat]

def modifiesRegisterA (ins : Instruction) : Bool :=
  if ins.cls = Code.ld then true
  else if ins.cls = Code.alu then true
  else if ins.cls = Code.misc then ins.opCode == Code.misc ||| Code.tax
  else false

end Instruction

end BVisor.Bpf
