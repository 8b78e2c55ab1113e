import BVisor.Bpf.Optimizer.Rewriting

/-! Removing instructions, with the jumps over them shortened. -/

namespace BVisor.Bpf

open List Option Instruction

variable {insns : List Instruction} {removed pc : Nat} {ins : Instruction} {op : Op} {live : Nat → Prop}
  {width : Nat} {offset : BitVec width}

/-- Where an instruction is found after the removal of the one at `removed`; the place of the
removed instruction itself becomes that of its successor. -/
def shift (removed pc : Nat) : Nat :=
  if pc > removed then pc - 1 else pc

theorem shift_self : shift removed removed = removed := by
  simp [shift]

theorem shift_succ : shift removed (removed + 1) = removed := by
  simp [shift]

theorem decrementOffset_shift (before : pc < removed) :
    pc + (decrementOffset removed pc offset).toNat + 1 =
      shift removed (pc + offset.toNat + 1) := by
  rw [decrementOffset, shift]
  split
  · have positive : 1 ≤ offset.toNat := by omega
    have bound := offset.isLt
    have wide : width ≠ 0 := by
      rintro rfl
      omega
    have one : (1 : BitVec width).toNat = 1 := BitVec.toNat_one (by omega)
    rw [BitVec.toNat_sub_of_le (by rw [BitVec.le_def, one]; exact positive), one]
    omega
  · rfl

def moved (removed pc : Nat) (ins : Instruction) : Instruction :=
  if pc < removed then decrementJump removed pc ins else ins

theorem removeAt_getElem? (kept : pc ≠ removed) :
    (removeAt removed insns)[shift removed pc]? = (insns[pc]?).map (moved removed pc) := by
  simp only [removeAt, decrementJumps, List.getElem?_mapIdx, List.getElem?_eraseIdx, shift]
  by_cases before : pc < removed
  · have stays : ¬ pc > removed := by omega
    have same : moved removed pc = decrementJump removed pc := by
      funext ins
      simp [moved, before]
    simp only [stays, before, ↓reduceIte, same]
  · have after : pc > removed := by omega
    have same : moved removed pc = id := by
      funext ins
      simp [moved, before]
    simp only [after, ↓reduceIte, same, if_neg (show ¬ pc - 1 < removed by omega),
      Nat.sub_add_cancel (show 1 ≤ pc by omega)]
    rfl

theorem length_removeAt (bound : removed < insns.length) :
    (removeAt removed insns).length = insns.length - 1 := by
  simp [removeAt, decrementJumps, length_eraseIdx, bound]

theorem moved_op? : (moved removed pc ins).op? = ins.op? := by
  simp only [moved, decrementJump, op?]
  split_ifs <;> rfl

section

variable (decoded : ins.op? = some op)
include decoded

theorem moved_plain (notJump : op.flavour ≠ .direct ∧ op.flavour ≠ .conditional) :
    moved removed pc ins = ins := by
  simp [moved, decrementJump, isJump_eq decoded, notJump]

omit decoded in
theorem movedOffset_shift (kept : pc ≠ removed) :
    shift removed pc + (if pc < removed then decrementOffset removed pc offset else offset).toNat + 1 =
      shift removed (pc + offset.toNat + 1) := by
  split
  · rename_i before
    rw [← decrementOffset_shift before, shift, if_neg (by omega)]
  · rw [shift, shift, if_pos (by omega), if_pos (by omega)]
    omega

theorem moved_direct (direct : op.flavour = .direct) (kept : pc ≠ removed) :
    shift removed pc + (moved removed pc ins).k.toNat + 1 =
      shift removed (pc + ins.k.toNat + 1) := by
  have same : (moved removed pc ins).k =
      if pc < removed then decrementOffset removed pc ins.k else ins.k := by
    rw [moved]
    split <;> simp [decrementJump, isJump_eq decoded, isUnconditionalJump_eq decoded, direct]
  rw [same, movedOffset_shift kept]

theorem moved_conditional (conditional : op.flavour = .conditional) (kept : pc ≠ removed) :
    (moved removed pc ins).k = ins.k ∧
      shift removed pc + (moved removed pc ins).jumpIfTrue.toNat + 1 =
        shift removed (pc + ins.jumpIfTrue.toNat + 1) ∧
      shift removed pc + (moved removed pc ins).jumpIfFalse.toNat + 1 =
        shift removed (pc + ins.jumpIfFalse.toNat + 1) := by
  have same : moved removed pc ins = { ins with
      jumpIfTrue := if pc < removed then decrementOffset removed pc ins.jumpIfTrue else ins.jumpIfTrue
      jumpIfFalse := if pc < removed then decrementOffset removed pc ins.jumpIfFalse else ins.jumpIfFalse } := by
    rw [moved]
    split <;> simp [decrementJump, isJump_eq decoded, isUnconditionalJump_eq decoded, conditional]
  rw [same]
  exact ⟨rfl, movedOffset_shift kept, movedOffset_shift kept⟩

omit decoded in
theorem shift_next (kept : pc ≠ removed) : shift removed pc + 1 = shift removed (pc + 1) := by
  simp only [shift]
  split <;> split <;> omega

theorem successors_moved (kept : pc ≠ removed) :
    successors (shift removed pc) (moved removed pc ins) = (successors pc ins).map (shift removed) := by
  rw [successors_eq decoded, successors_eq (moved_op?.trans decoded)]
  cases flavour : op.flavour with
  | plain => simp [shift_next kept]
  | direct => simp [moved_direct decoded flavour kept]
  | conditional => simp [moved_conditional decoded flavour kept]
  | final => rfl

theorem node_moved (kept : pc ≠ removed) (tree : Nat → Tree) :
    node tree (shift removed pc) (moved removed pc ins) =
      match op.flavour with
      | .plain => .act (shift removed pc, ins) (tree (shift removed (pc + 1)))
      | .direct => tree (shift removed (pc + ins.k.toNat + 1))
      | .conditional =>
        .decideBy (ins.opCode, ins.k) (tree (shift removed (pc + ins.jumpIfTrue.toNat + 1)))
          (tree (shift removed (pc + ins.jumpIfFalse.toNat + 1)))
      | .final => .leaf ins.ending := by
  have code : (moved removed pc ins).opCode = ins.opCode := by
    have decoded' : (moved removed pc ins).op? = some op := moved_op?.trans decoded
    exact (Op.code_of_ofCode? decoded').symm.trans (Op.code_of_ofCode? decoded)
  rw [node_eq (moved_op?.trans decoded)]
  cases flavour : op.flavour with
  | plain => simp [moved_plain decoded, flavour, shift_next kept]
  | direct => simp [moved_direct decoded flavour kept]
  | conditional =>
    obtain ⟨operand, yes, no⟩ := moved_conditional decoded flavour kept
    simp [operand, yes, no, code]
  | final => simp [moved_plain decoded, flavour]

end

/-- An instruction that can be left out of a path: a plain one or a jump to the next place. -/
def Skippable (insns : List Instruction) (pc : Nat) : Prop :=
  ∃ ins op, insns[pc]? = some ins ∧ ins.op? = some op ∧
    (op.flavour = .plain ∨ (op.flavour = .direct ∧ ins.k = 0))

theorem Skippable.successors (skippable : Skippable insns pc) :
    ∃ ins, insns[pc]? = some ins ∧ successors pc ins = [pc + 1] := by
  obtain ⟨ins, op, found, decoded, plain | ⟨direct, zero⟩⟩ := skippable
  · exact ⟨ins, found, by rw [successors_eq decoded, plain]⟩
  · exact ⟨ins, found, by rw [successors_eq decoded, direct, zero]; rfl⟩

def Action.drop (removed : Nat) (action : Action) : Option Action :=
  if action.1 = removed then none else some (shift removed action.1, action.2)

@[simp] theorem Action.drop_eq_none {action : Action} :
    Action.drop removed action = none ↔ action.1 = removed := by
  simp [Action.drop]

@[simp] theorem Action.drop_eq_some {action other : Action} :
    Action.drop removed action = some other ↔
      action.1 ≠ removed ∧ (shift removed action.1, action.2) = other := by
  simp [Action.drop]

def Tree.without (tree : Tree) (removed : Nat) : Tree :=
  tree.collect (Action.drop removed)

theorem without_decideBy (condition : Condition) (yes no : Tree) :
    Tree.without (.decideBy condition yes no) removed =
      .decideBy condition (yes.without removed) (no.without removed) :=
  Data.CodeTree.collect_decideBy condition yes no

theorem without_act (kept : pc ≠ removed) (next : Tree) :
    Tree.without (.act (pc, ins) next) removed =
      .act (shift removed pc, ins) (next.without removed) := by
  simp [Tree.without, Data.CodeTree.collect, Action.drop, kept]

theorem without_act_removed (next : Tree) :
    Tree.without (.act (removed, ins) next) removed = next.without removed := by
  simp [Tree.without, Data.CodeTree.collect, Action.drop]

variable (removed) in
theorem codeTree_removeAt (inside : Inside insns live)
    (skippable : live removed → Skippable insns removed) (start : live pc) :
    codeTree (removeAt removed insns) (shift removed pc) = (codeTree insns pc).without removed := by
  induction rest : insns.length - pc using Nat.strong_induction_on generalizing pc with
  | _ rest ih =>
    obtain ⟨ins, found, ⟨op, decoded, _⟩, stays⟩ := inside pc start
    have bound := (List.getElem?_eq_some_iff.mp found).1
    have later : ∀ next ∈ successors pc ins, pc < next →
        codeTree (removeAt removed insns) (shift removed next) = (codeTree insns next).without removed :=
      fun next member after => ih (insns.length - next) (by omega) (stays next member) rfl
    by_cases kept : pc = removed
    · subst kept
      obtain ⟨other, _, found', decoded', flavour⟩ := skippable start
      rw [found, some.injEq] at found'
      subst found'
      rw [decoded, some.injEq] at decoded'
      subst decoded'
      rw [successors_eq decoded] at later
      rw [codeTree_node found, node_eq decoded, shift_self]
      rcases flavour with plain | ⟨direct, zero⟩
      · simp only [plain, mem_singleton, forall_eq] at later ⊢
        rw [without_act_removed, ← later (by omega), shift_succ]
      · have offset : ins.k.toNat = 0 := by simp [zero]
        simp only [direct, offset, mem_singleton, forall_eq, Nat.add_zero] at later ⊢
        rw [← later (by omega), shift_succ]
    have found' : (removeAt removed insns)[shift removed pc]? = some (moved removed pc ins) := by
      rw [removeAt_getElem? kept, found, map_some]
    rw [successors_eq decoded] at later
    rw [codeTree_node found, node_eq decoded, codeTree_node found', node_moved decoded kept]
    cases flavour : op.flavour with
    | plain =>
      simp only [flavour, mem_singleton, forall_eq] at later ⊢
      rw [without_act kept, later (by omega)]
    | direct =>
      simp only [flavour, mem_singleton, forall_eq] at later ⊢
      rw [later (by omega)]
    | conditional =>
      simp only [flavour, mem_cons, not_mem_nil, or_false, forall_eq_or_imp, forall_eq] at later ⊢
      rw [without_decideBy, later.1 (by omega), later.2 (by omega)]
    | final => rfl

def liveAfter (live : Nat → Prop) (removed place : Nat) : Prop :=
  ∃ pc, live pc ∧ pc ≠ removed ∧ shift removed pc = place

variable (removed) in
theorem Inside.removeAt (inside : Inside insns live)
    (skippable : live removed → Skippable insns removed) :
    Inside (removeAt removed insns) (liveAfter live removed) := by
  rintro _ ⟨pc, start, kept, rfl⟩
  obtain ⟨ins, found, ⟨op, decoded, admits⟩, stays⟩ := inside pc start
  refine ⟨moved removed pc ins, ?_, ⟨op, moved_op?.trans decoded, ?_⟩, ?_⟩
  · rw [removeAt_getElem? kept, found, map_some]
  · cases flavour : op.flavour with
    | plain | final => rwa [moved_plain decoded (by simp [flavour])]
    | direct | conditional => cases op <;> trivial
  · rw [successors_moved decoded kept]
    intro next member
    obtain ⟨target, targetMember, rfl⟩ := mem_map.mp member
    have targetLive := stays target targetMember
    by_cases isRemoved : target = removed
    · subst isRemoved
      obtain ⟨ins, found, continues⟩ := (skippable targetLive).successors
      obtain ⟨other, same, _, staysThere⟩ := inside target targetLive
      rw [found, some.injEq] at same
      subst same
      exact ⟨target + 1, staysThere _ (by rw [continues]; exact mem_singleton_self _),
        by omega, by rw [shift_self, shift_succ]⟩
    · exact ⟨target, targetLive, isRemoved, rfl⟩

theorem WellFormed.removeAt (wellFormed : WellFormed insns)
    (skippable : Skippable insns removed) : WellFormed (removeAt removed insns) := by
  obtain ⟨ins, found, continues⟩ := skippable.successors
  have bound := (List.getElem?_eq_some_iff.mp found).1
  have next : removed + 1 < insns.length :=
    wellFormed.edge_lt ⟨ins, found, by rw [continues]; exact mem_singleton_self _⟩
  refine ⟨by rw [length_removeAt bound]; omega, fun pc inRange => ?_⟩
  rw [length_removeAt bound] at inRange
  have places : ∀ place, liveAfter (· < insns.length) removed place →
      place < (Bpf.removeAt removed insns).length := by
    rintro _ ⟨original, original_lt, kept, rfl⟩
    rw [length_removeAt bound, shift]
    split <;> omega
  have live : liveAfter (· < insns.length) removed pc := by
    by_cases before : pc < removed
    · exact ⟨pc, by omega, by omega, by rw [shift, if_neg (by omega)]⟩
    · exact ⟨pc + 1, by omega, by omega, by rw [shift, if_pos (by omega)]; omega⟩
  obtain ⟨ins, found, valid, stays⟩ := wellFormed.inside.removeAt removed (fun _ => skippable) pc live
  exact ⟨ins, found, valid, fun next member => places next (stays next member)⟩

/-- The loop of `codeRemoval.Apply`, from the highest index down. The invariant speaks of the
indexes that are still to be removed; they are all lower than the ones already gone. -/
theorem foldr_removeAt (invariant : List Nat → List Instruction → Prop)
    (step : ∀ lower place current, (∀ earlier ∈ lower, earlier < place) →
      invariant (lower ++ [place]) current → invariant lower (removeAt place current))
    {toRemove : List Nat} (sorted : toRemove.Pairwise (· < ·))
    (initially : invariant toRemove insns) : invariant [] (toRemove.foldr removeAt insns) := by
  suffices general : ∀ lower, (lower ++ toRemove).Pairwise (· < ·) →
      invariant (lower ++ toRemove) insns → invariant lower (toRemove.foldr removeAt insns) from
    general [] sorted initially
  clear sorted initially
  induction toRemove with
  | nil =>
    intro lower _ holds
    rwa [append_nil] at holds
  | cons first rest ih =>
    intro lower sorted holds
    have regroup : lower ++ first :: rest = (lower ++ [first]) ++ rest := by simp
    rw [regroup] at sorted holds
    refine step lower first _ (fun earlier member => ?_) (ih _ sorted holds)
    exact (pairwise_append.mp (pairwise_append.mp sorted).1).2.2 earlier member first (mem_singleton_self first)

end BVisor.Bpf
