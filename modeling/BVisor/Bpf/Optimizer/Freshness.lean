import BVisor.Bpf.Optimizer.Removal

/-! When a load may be left out because A already holds its value. -/

namespace BVisor.Bpf

open Data Option Instruction Code Effect

def Op.writesX : Op → Bool
  | .ldxImm | .ldxMem | .ldxLen | .ldxMsh | .txa => true
  | _ => false

/-- Whether `ins`, which does not write A, changes the operand of the load `loaded` whose value A
holds. Storing A itself to the loaded register changes nothing. -/
def clobbers (ins loaded : Instruction) : Bool :=
  match loaded.op? with
  | some (.ldInd _) => (ins.op?).any Op.writesX
  | some .ldMem => ins.op? == some .stx && ins.k == loaded.k
  | _ => false

abbrev LastWrite := Option (Instruction × Bool)

def LastWrite.after (info : LastWrite) (ins : Instruction) : LastWrite :=
  if ins.modifiesRegisterA then some (ins, false)
  else info.map fun write => (write.1, write.2 || clobbers ins write.1)

/-- `Arrives insns pc info`: some path through the program comes to `pc` with `info`. -/
inductive Arrives (insns : List Instruction) : Nat → LastWrite → Prop where
  | start : Arrives insns 0 none
  | step {pc next : Nat} {info : LastWrite} {ins : Instruction} :
      Arrives insns pc info → insns[pc]? = some ins → next ∈ successors pc ins →
      Arrives insns next (info.after ins)

/-- Whether the instructions on the chain of predecessors from `beforePCs` back to the last one that
modified A leave the operand of `loaded` as it was. -/
def keepsOperand (insns : List Instruction) (loaded : Instruction) : Nat → List Nat → Bool
  | 0, _ => true
  | steps + 1, beforePCs =>
    match beforePCs with
    | [beforePC] =>
      if (insns[beforePC]?).any (!·.modifiesRegisterA) then
        !(insns[beforePC]?).any (clobbers · loaded) &&
          keepsOperand insns loaded steps (reverseWalk insns beforePC)
      else true
    | _ => true

/-- The loads that `removeRedundantLoads` removes although their operand has changed since the equal
load before them. -/
def staleLoads (insns : List Instruction) : List Nat :=
  places insns fun pc ins => isRedundantLoad insns pc ins &&
    !keepsOperand insns ins insns.length (reverseWalk insns pc)

variable {info : LastWrite}

section Loads

variable {ins loaded : Instruction} {op : Op} {endian : Endianness} {input : Input}
  {machine : Machine}

def Op.isLd : Op → Bool
  | .ldImm | .ldAbs _ | .ldInd _ | .ldMem | .ldLen => true
  | _ => false

def Op.writesA : Op → Bool
  | .ldImm | .ldAbs _ | .ldInd _ | .ldMem | .ldLen | .alu _ _ | .neg | .tax => true
  | _ => false

theorem Op.code_writesA (op : Op) :
    ((op.code &&& instructionClassMask = ld) ↔ op.isLd = true) ∧
    (stmt op.code 0).modifiesRegisterA = op.writesA := by
  cases op with
  | ldAbs size | ldInd size => cases size <;> decide
  | alu op source => cases op <;> cases source <;> decide
  | jump comparison source => cases comparison <;> cases source <;> decide
  | _ => decide

section

variable (decoded : ins.op? = some op) {skip : Nat}
include decoded

theorem cls_eq_ld : ins.cls = ld ↔ op.isLd = true := by
  rw [cls, ← Op.code_of_ofCode? decoded]
  exact op.code_writesA.1

theorem modifiesRegisterA_eq : ins.modifiesRegisterA = op.writesA := by
  have code := Op.code_of_ofCode? decoded
  have same : ins.modifiesRegisterA = (stmt op.code 0).modifiesRegisterA := by
    rw [code]
    rfl
  rw [same]
  exact op.code_writesA.2

omit decoded in
theorem equal_ld (isLoad : ins.cls = ld) :
    ins.equal loaded = true ↔ ins.opCode = loaded.opCode ∧
      (ins.opCode &&& loadModeMask = len ∨ ins.k = loaded.k) := by
  rw [equal]
  by_cases same : ins.opCode = loaded.opCode
  · rw [if_neg (not_not.mpr same), if_pos (.inl isLoad)]
    split
    · rename_i length
      exact iff_of_true rfl ⟨same, .inl length⟩
    · rename_i notLength
      rw [beq_iff_eq]
      exact ⟨fun operand => ⟨same, .inr operand⟩, fun both => both.2.resolve_left notLength⟩
  · simp [same]

def Op.ldValue (op : Op) (endian : Endianness) (input : Input) (k x : BitVec 32)
    (m : Nat → BitVec 32) : Option (BitVec 32) :=
  match op with
  | .ldImm => some k
  | .ldAbs size => load endian input size k
  | .ldInd size => load endian input size (x + k)
  | .ldMem => some (m k.toNat)
  | .ldLen => some (BitVec.ofNat 32 input.length)
  | _ => none

theorem step_ld (isLd : op.isLd = true) :
    step endian input ins machine =
      .ofLoad (op.ldValue endian input ins.k machine.x machine.m)
        fun value => { machine with a := value } := by
  rw [step_eq decoded]
  cases op <;> first | rfl | cases isLd

theorem step_ld_idle (isLd : op.isLd = true) :
    step endian input ins machine = .next 0 machine ↔
      op.ldValue endian input ins.k machine.x machine.m = some machine.a := by
  rw [step_ld decoded isLd]
  cases op.ldValue endian input ins.k machine.x machine.m with
  | none => simp [ofLoad]
  | some value =>
    simp only [ofLoad, next.injEq, true_and, some.injEq]
    constructor
    · intro same
      exact congrArg Machine.a same
    · rintro rfl
      rfl

omit decoded in
theorem step_of_equal (isLoad : ins.cls = ld) (equal : ins.equal loaded = true) :
    step endian input ins machine = step endian input loaded machine := by
  obtain ⟨code, operand⟩ := (equal_ld isLoad).mp equal
  have sameOp : ins.op? = loaded.op? := by rw [op?, op?, code]
  cases decoded : ins.op? with
  | none => simp only [step, ← sameOp, decoded]
  | some op =>
    have isLd := (cls_eq_ld decoded).mp isLoad
    rw [step_ld decoded isLd, step_ld (sameOp ▸ decoded) isLd]
    rcases operand with length | same
    · have isLen : op = .ldLen := by
        rw [← Op.code_of_ofCode? decoded] at length
        cases op with
        | ldLen => rfl
        | ldAbs size | ldInd size => cases size <;> exact absurd length (by decide)
        | ldImm | ldMem => exact absurd length (by decide)
        | _ => cases isLd
      rw [isLen]
      rfl
    · rw [same]

/-- What the record of the last write says about the registers: if the load that wrote A is
fresh, doing it again changes nothing. -/
def Holds (endian : Endianness) (input : Input) (info : LastWrite) (machine : Machine) : Prop :=
  ∀ loaded, info = some (loaded, false) → loaded.cls = Code.ld →
    step endian input loaded machine = .next 0 machine

theorem step_idem {after : Machine} (isLd : op.isLd = true)
    (stepped : step endian input ins machine = .next 0 after) :
    step endian input ins after = .next 0 after := by
  rw [step_ld decoded isLd] at stepped
  rw [step_ld_idle decoded isLd]
  cases value : op.ldValue endian input ins.k machine.x machine.m with
  | none => simp [value, ofLoad] at stepped
  | some loaded =>
    simp only [value, ofLoad, next.injEq, true_and] at stepped
    rw [← stepped]
    exact value

theorem step_keeps_a {after : Machine}
    (keepsA : op.writesA = false) (stepped : step endian input ins machine = .next skip after) :
    after.a = machine.a ∧ (op.writesX = false → after.x = machine.x) ∧
      ∀ index, after.m index = machine.m index ∨
        (index = ins.k.toNat ∧ ((op = .st ∧ after.m index = machine.a) ∨ op = .stx)) := by
  rw [step_eq decoded] at stepped
  cases op with
  | ldImm | ldAbs size | ldInd size | ldMem | ldLen | alu op source | neg | tax => cases keepsA
  | retK | retA => cases stepped
  | ldxMsh =>
    simp only [Op.step, ofLoad] at stepped
    split at stepped
    · cases stepped
    · cases stepped
      exact ⟨rfl, fun keepsX => (by cases keepsX), fun _ => .inl rfl⟩
  | st | stx =>
    cases stepped
    refine ⟨rfl, fun _ => rfl, fun index => ?_⟩
    by_cases same : index = ins.k.toNat
    · simp [Machine.store, same]
    · exact .inl (by simp [Machine.store, same])
  | ja | jump comparison source =>
    cases stepped
    exact ⟨rfl, fun _ => rfl, fun _ => .inl rfl⟩
  | ldxImm | ldxMem | ldxLen | txa =>
    cases stepped
    exact ⟨rfl, fun keepsX => (by cases keepsX), fun _ => .inl rfl⟩

theorem ldValue_kept {after : Machine} {loadOp : Op} (loadDecoded : loaded.op? = some loadOp)
    (keepsA : op.writesA = false) (untouched : clobbers ins loaded = false)
    (stepped : step endian input ins machine = .next skip after)
    (fresh : loadOp.ldValue endian input loaded.k machine.x machine.m = some machine.a) :
    loadOp.ldValue endian input loaded.k after.x after.m = some after.a := by
  obtain ⟨sameA, sameX, stores⟩ := step_keeps_a decoded keepsA stepped
  rw [sameA]
  simp only [clobbers, loadDecoded] at untouched
  cases loadOp with
  | ldInd size =>
    simp only [decoded, any_some] at untouched
    simpa only [Op.ldValue, sameX untouched] using fresh
  | ldMem =>
    simp only [Op.ldValue, some.injEq] at fresh ⊢
    rcases stores loaded.k.toNat with same | ⟨index, ⟨_, stored⟩ | isStx⟩
    · rw [same, fresh]
    · exact stored
    · have operand : ins.k = loaded.k := BitVec.eq_of_toNat_eq index.symm
      simp [decoded, isStx, operand] at untouched
  | _ => exact fresh

end

theorem Holds.after {pc : Nat} {after : Machine}
    (holds : Holds endian input info machine) (ran : runAction endian input (pc, ins) machine = .ok after) :
    Holds endian input (info.after ins) after := by
  cases decoded : ins.op? with
  | none => simp [runAction, step, decoded] at ran
  | some op =>
    rintro loaded recorded isLoad
    rw [LastWrite.after, modifiesRegisterA_eq decoded] at recorded
    cases writesA : op.writesA with
    | true =>
      simp only [writesA, ↓reduceIte, some.injEq, Prod.mk.injEq, and_true] at recorded
      subst recorded
      have isLd := (cls_eq_ld decoded).mp isLoad
      suffices stepped : step endian input ins machine = .next 0 after from
        step_idem decoded isLd stepped
      rw [runAction, step_ld decoded isLd] at ran
      rw [step_ld decoded isLd]
      cases value : op.ldValue endian input ins.k machine.x machine.m with
      | none => simp [value, ofLoad] at ran
      | some loaded =>
        simp only [value, ofLoad, Except.ok.injEq] at ran
        rw [ofLoad, ran]
    | false =>
      cases info with
      | none => simp [writesA] at recorded
      | some write =>
        simp only [writesA, Bool.false_eq_true, ↓reduceIte, map_some,
          some.injEq, Prod.mk.injEq, Bool.or_eq_false_iff] at recorded
        obtain ⟨rfl, fresh, untouched⟩ := recorded
        have before := holds write.1 (by rw [← fresh]) isLoad
        cases loadDecoded : write.1.op? with
        | none => simp [step, loadDecoded] at before
        | some loadOp =>
          have isLd := (cls_eq_ld loadDecoded).mp isLoad
          rw [step_ld_idle loadDecoded isLd] at before ⊢
          rw [runAction] at ran
          split at ran
          · rename_i stepped
            obtain rfl := Except.ok.inj ran
            exact ldValue_kept decoded loadDecoded writesA untouched stepped before
          · obtain rfl := Except.ok.inj ran
            exact before
          · cases ran

end Loads

/-! The record along the paths of a tree. -/

def recordWrite (action : Action) (info : LastWrite) : LastWrite :=
  info.after action.2

namespace Tree

def Comes (tree : Tree) (action : Action) (info : LastWrite) : Prop :=
  CodeTree.Meets recordWrite none tree action info

/-- If the place `pc` is met, it holds a load that finds A last written by an equal load, and its
operand as it was then. -/
def Removable (tree : Tree) (pc : Nat) : Prop :=
  ∀ ins info, tree.Comes (pc, ins) info →
    ins.cls = Code.ld ∧ ∃ loaded, info = some (loaded, false) ∧ ins.equal loaded = true

end Tree

section Equal

variable {first second ins : Instruction} (isLoad : first.cls = ld) (equal : first.equal second = true)
include isLoad equal

theorem equal_cls : second.cls = ld := by
  rw [← isLoad, cls, cls, ((equal_ld isLoad).mp equal).1]

theorem clobbers_equal : clobbers ins first = clobbers ins second := by
  obtain ⟨code, operand⟩ := (equal_ld isLoad).mp equal
  have sameOp : first.op? = second.op? := by rw [op?, op?, code]
  rw [clobbers, clobbers, ← sameOp]
  rcases operand with length | same
  · cases decoded : first.op? with
    | none => rfl
    | some op =>
      cases op with
      | ldMem =>
        rw [← Op.code_of_ofCode? decoded] at length
        exact absurd length (by decide)
      | _ => rfl
  · rw [same]

end Equal

/-- Leaving out what is removable, and giving other places to the rest, loses nothing. -/
theorem value_collect {tree : Tree} {f : Action → Option Action}
    (same : ∀ action other, f action = some other → other.2 = action.2)
    (removable : ∀ action, f action = none → tree.Removable action.1)
    (endian : Endianness) (input : Input) :
    Tree.value endian input (tree.collect f) .initial = Tree.value endian input tree .initial := by
  have established : Holds endian input none .initial := by
    intro _ recorded
    cases recorded
  refine CodeTree.eval_collect recordWrite (Holds endian input) ?_ ?_ ?_ established
  · intro action info state after holds ran
    have ran' : runAction endian input (action.1, action.2) state = .ok after := ran
    exact holds.after ran'
  · intro action other found
    funext machine
    rw [runAction, runAction, same action other found]
  · rintro ⟨pc, ins⟩ info state comes dropped holds
    obtain ⟨isLoad, loaded, recorded, equal⟩ := removable (pc, ins) dropped ins info comes
    have idle := holds loaded recorded (equal_cls isLoad equal)
    rw [runAction, step_of_equal isLoad equal, idle]

theorem value_collect_some {tree : Tree} {endian : Endianness} {input : Input} :
    Tree.value endian input (tree.collect some) .initial = Tree.value endian input tree .initial :=
  value_collect (fun _ _ same => some.inj same ▸ rfl) (fun _ dropped => by cases dropped) endian input

end BVisor.Bpf
