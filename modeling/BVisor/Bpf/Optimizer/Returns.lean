import BVisor.Bpf.Optimizer.DeadCode

/-! `optimizeJumpsToSmallestSetOfReturns`. -/

namespace BVisor.Bpf

open List Instruction

variable {insns after : List Instruction} {pc fromPC toPC : Nat} {ins ins' : Instruction} {op : Op}

def Flavour.isJump : Flavour → Bool
  | .direct | .conditional => true
  | _ => false

theorem jumpsTo_iff {target : Nat} (decoded : ins.op? = some op) :
    jumpsTo target pc ins = true ↔
      op.flavour.isJump = true ∧ target ∈ successors pc ins := by
  rw [successors_eq decoded]
  simp only [jumpsTo, jumpOffsets, isJump_eq decoded,
    isConditionalJump_eq decoded]
  cases flavour : op.flavour <;> simp [goesTo, Flavour.isJump, @eq_comm _ target]

theorem neededOffset_spec {limit offset width : Nat} (fits : limit < 2 ^ width)
    (needed : neededOffset toPC limit pc = some offset) :
    pc + (BitVec.ofNat width offset).toNat + 1 = toPC := by
  simp only [neededOffset] at needed
  split at needed
  · rename_i within
    obtain rfl := Option.some.inj needed
    rw [BitVec.toNat_ofNat, Nat.mod_eq_of_lt (by omega)]
    omega
  · cases needed

structure Retargeted (fromPC toPC pc : Nat) (op : Op) (ins ins' : Instruction) : Prop where
  sameOp : ins'.op? = ins.op?
  others : op.flavour.isJump = false → ins' = ins
  jumps : op.flavour.isJump = true → ∀ target ∈ successors pc ins',
    target = toPC ∨ (target ∈ successors pc ins ∧ target ≠ fromPC)

/-- An offset that stays and does not lead to `fromPC`, or that led there and now leads to `toPC`. -/
def MovedOffset {width : Nat} (fromPC toPC pc : Nat) (old new : BitVec width) : Prop :=
  new = old ∧ pc + new.toNat + 1 ≠ fromPC ∨ pc + old.toNat + 1 = fromPC ∧ pc + new.toNat + 1 = toPC

section

variable {width : Nat} {old new : BitVec width} (moved : MovedOffset fromPC toPC pc old new)
include moved

theorem MovedOffset.tree (sameTree : codeTree insns toPC = codeTree insns fromPC) :
    codeTree insns (pc + new.toNat + 1) = codeTree insns (pc + old.toNat + 1) := by
  rcases moved with ⟨rfl, _⟩ | ⟨target, reaches⟩
  · rfl
  · rw [target, reaches, sameTree]

theorem MovedOffset.target {targets : List Nat} (member : pc + old.toNat + 1 ∈ targets) :
    pc + new.toNat + 1 = toPC ∨ pc + new.toNat + 1 ∈ targets ∧ pc + new.toNat + 1 ≠ fromPC := by
  rcases moved with ⟨rfl, away⟩ | ⟨_, reaches⟩
  · exact .inr ⟨member, away⟩
  · exact .inl reaches

end

theorem retarget_direct (decoded : ins.op? = some op) (direct : op.flavour = .direct)
    (done : retarget fromPC toPC pc ins = some ins') :
    ∃ k, ins' = { ins with k } ∧ MovedOffset fromPC toPC pc ins.k k := by
  have goes : jumpsTo fromPC pc ins = true ↔ pc + ins.k.toNat + 1 = fromPC := by
    rw [jumpsTo_iff decoded, successors_eq decoded, direct]
    simp [Flavour.isJump, @eq_comm _ fromPC]
  simp only [retarget, isConditionalJump_eq decoded, direct] at done
  split at done
  · rename_i elsewhere
    obtain rfl := Option.some.inj done
    exact ⟨ins.k, rfl, .inl ⟨rfl, fun same => by simp [goes.mpr same] at elsewhere⟩⟩
  rename_i here
  have target := goes.mp (by simpa using here)
  simp only [reduceCtorEq, decide_false, Bool.false_eq_true, ↓reduceIte] at done
  obtain ⟨offset, needed, rewritten⟩ := Option.bind_eq_some_iff.mp done
  obtain rfl := Option.some.inj rewritten
  exact ⟨_, rfl, .inr ⟨target, neededOffset_spec (by decide) needed⟩⟩

theorem retarget_conditional (decoded : ins.op? = some op) (conditional : op.flavour = .conditional)
    (done : retarget fromPC toPC pc ins = some ins') :
    ∃ jt jf, ins' = { ins with jumpIfTrue := jt, jumpIfFalse := jf } ∧
      MovedOffset fromPC toPC pc ins.jumpIfTrue jt ∧ MovedOffset fromPC toPC pc ins.jumpIfFalse jf := by
  have goes : jumpsTo fromPC pc ins = true ↔
      pc + ins.jumpIfTrue.toNat + 1 = fromPC ∨ pc + ins.jumpIfFalse.toNat + 1 = fromPC := by
    rw [jumpsTo_iff decoded, successors_eq decoded, conditional]
    simp [Flavour.isJump, @eq_comm _ fromPC]
  simp only [retarget, isConditionalJump_eq decoded, conditional] at done
  split at done
  · rename_i elsewhere
    obtain rfl := Option.some.inj done
    have neither : ¬ (pc + ins.jumpIfTrue.toNat + 1 = fromPC ∨
        pc + ins.jumpIfFalse.toNat + 1 = fromPC) := fun either => by
      simp [goes.mpr either] at elsewhere
    exact ⟨ins.jumpIfTrue, ins.jumpIfFalse, rfl, .inl ⟨rfl, fun same => neither (.inl same)⟩,
      .inl ⟨rfl, fun same => neither (.inr same)⟩⟩
  simp only [decide_true, ↓reduceIte] at done
  obtain ⟨offset, needed, rewritten⟩ := Option.bind_eq_some_iff.mp done
  obtain rfl := Option.some.inj rewritten
  have reaches : pc + (BitVec.ofNat 8 offset).toNat + 1 = toPC := neededOffset_spec (by decide) needed
  have field : ∀ old : BitVec 8, MovedOffset fromPC toPC pc old
      (if goesTo fromPC pc old.toNat then BitVec.ofNat 8 offset else old) := by
    intro old
    by_cases here : pc + old.toNat + 1 = fromPC
    · exact .inr ⟨here, by simpa [goesTo, here] using reaches⟩
    · exact .inl (by simp [goesTo, here])
  exact ⟨_, _, rfl, field ins.jumpIfTrue, field ins.jumpIfFalse⟩

theorem retarget_spec (decoded : ins.op? = some op) (done : retarget fromPC toPC pc ins = some ins') :
    Retargeted fromPC toPC pc op ins ins' := by
  cases flavour : op.flavour with
  | plain | final =>
    have elsewhere : jumpsTo fromPC pc ins = false := by
      have none := (@jumpsTo_iff pc _ _ fromPC decoded).not
      simpa [flavour, Flavour.isJump] using none
    simp only [retarget, elsewhere, Bool.not_false, ↓reduceIte, Option.some.injEq] at done
    subst done
    exact ⟨rfl, fun _ => rfl, by simp [flavour, Flavour.isJump]⟩
  | direct =>
    obtain ⟨k, rfl, moved⟩ := retarget_direct decoded flavour done
    have decoded' : ({ ins with k } : Instruction).op? = some op := decoded
    have edge : pc + ins.k.toNat + 1 ∈ successors pc ins := by
      simp [successors_eq decoded, flavour]
    refine ⟨rfl, by simp [flavour, Flavour.isJump], fun _ => ?_⟩
    simp only [successors_eq decoded', flavour, mem_singleton, forall_eq]
    exact moved.target edge
  | conditional =>
    obtain ⟨jt, jf, rfl, yes, no⟩ := retarget_conditional decoded flavour done
    have decoded' : ({ ins with jumpIfTrue := jt, jumpIfFalse := jf } : Instruction).op? = some op := decoded
    have edges : pc + ins.jumpIfTrue.toNat + 1 ∈ successors pc ins ∧
        pc + ins.jumpIfFalse.toNat + 1 ∈ successors pc ins := by
      simp [successors_eq decoded, flavour]
    refine ⟨rfl, by simp [flavour, Flavour.isJump], fun _ => ?_⟩
    simp only [successors_eq decoded', flavour, mem_cons, not_mem_nil, or_false,
      forall_eq_or_imp, forall_eq]
    exact ⟨yes.target edges.1, no.target edges.2⟩

theorem retarget_localRewrite (wellFormed : WellFormed insns) (found : insns[pc]? = some ins)
    (sameTree : codeTree insns toPC = codeTree insns fromPC) (bound : toPC < insns.length)
    (done : retarget fromPC toPC pc ins = some ins') : LocalRewrite insns pc ins ins' := by
  obtain ⟨op, decoded, admits⟩ := wellFormed.valid found
  obtain ⟨sameOp, others, jumps⟩ := retarget_spec decoded done
  have decoded' : ins'.op? = some op := sameOp.trans decoded
  cases isJump : op.flavour.isJump with
  | false =>
    rw [others isJump]
    exact .refl wellFormed found
  | true =>
    have valid : ins'.Valid := by
      refine ⟨op, decoded', ?_⟩
      cases op <;> trivial
    refine ⟨valid, fun target member => ?_, ?_⟩
    · rcases jumps isJump target member with rfl | ⟨before, _⟩
      · exact bound
      · exact wellFormed.edge_lt ⟨ins, found, before⟩
    · rw [node_eq decoded, node_eq decoded']
      cases flavour : op.flavour with
      | plain | final => simp [flavour, Flavour.isJump] at isJump
      | direct =>
        obtain ⟨k, rfl, moved⟩ := retarget_direct decoded flavour done
        simp only [moved.tree sameTree]
      | conditional =>
        obtain ⟨jt, jf, rfl, yes, no⟩ := retarget_conditional decoded flavour done
        simp only [yes.tree sameTree, no.tree sameTree]

theorem retargetAll_spec {start : Nat} (done : retargetAll fromPC toPC start insns = some after) :
    after.length = insns.length ∧ ∀ i ins, insns[i]? = some ins →
      ∃ ins', after[i]? = some ins' ∧ retarget fromPC toPC (start + i) ins = some ins' := by
  induction insns generalizing start after with
  | nil =>
    obtain rfl := Option.some.inj done
    simp
  | cons first rest ih =>
    obtain ⟨first', firstDone, others⟩ := Option.bind_eq_some_iff.mp done
    obtain ⟨rest', restDone, joined⟩ := Option.bind_eq_some_iff.mp others
    obtain rfl := Option.some.inj joined
    obtain ⟨length, each⟩ := ih restDone
    refine ⟨by simp [length], fun i ins found => ?_⟩
    cases i with
    | zero =>
      obtain rfl := Option.some.inj found
      exact ⟨first', rfl, firstDone⟩
    | succ i =>
      obtain ⟨ins', found', rewritten⟩ := each i ins (by simpa using found)
      refine ⟨ins', by simpa using found', ?_⟩
      rwa [Nat.add_right_comm, Nat.add_assoc] at rewritten

structure JumpsMoved (insns after : List Instruction) : Prop where
  rewritten : Rewritten insns after
  sameOp : ∀ (pc : Nat) (ins : Instruction), insns[pc]? = some ins →
    ∃ ins', after[pc]? = some ins' ∧ ins'.op? = ins.op?
  others : ∀ (pc : Nat) (ins : Instruction) (op : Op), insns[pc]? = some ins →
    ins.op? = some op → op.flavour.isJump = false → after[pc]? = some ins

theorem JumpsMoved.refl (wellFormed : WellFormed insns) : JumpsMoved insns insns :=
  ⟨.refl wellFormed, fun _ ins found => ⟨ins, found, rfl⟩, fun _ _ _ found _ _ => found⟩

theorem JumpsMoved.trans {middle : List Instruction} (first : JumpsMoved insns middle)
    (second : JumpsMoved middle after) : JumpsMoved insns after := by
  refine ⟨first.rewritten.trans second.rewritten, fun pc ins found => ?_,
    fun pc ins op found decoded notJump => ?_⟩
  · obtain ⟨ins', found', same⟩ := first.sameOp pc ins found
    obtain ⟨ins'', found'', same'⟩ := second.sameOp pc ins' found'
    exact ⟨ins'', found'', same'.trans same⟩
  · exact second.others pc ins op (first.others pc ins op found decoded notJump) decoded notJump

def JumpedTo (insns : List Instruction) (target : Nat) : Prop :=
  ∃ pc ins, insns[pc]? = some ins ∧ jumpsTo target pc ins = true

theorem retargetAll_moved (wellFormed : WellFormed insns)
    (sameTree : codeTree insns toPC = codeTree insns fromPC) (bound : toPC < insns.length)
    (done : retargetAll fromPC toPC 0 insns = some after) :
    JumpsMoved insns after ∧ (JumpedTo after fromPC → fromPC = toPC) := by
  obtain ⟨length, each⟩ := retargetAll_spec done
  simp only [Nat.zero_add] at each
  refine ⟨⟨?_, ?_, ?_⟩, ?_⟩
  · refine rewritten_of_local wellFormed length fun pc ins found => ?_
    obtain ⟨ins', found', done⟩ := each pc ins found
    exact ⟨ins', found', retarget_localRewrite wellFormed found sameTree bound done⟩
  · intro pc ins found
    obtain ⟨ins', found', done⟩ := each pc ins found
    obtain ⟨op, decoded, _⟩ := wellFormed.valid found
    exact ⟨ins', found', (retarget_spec decoded done).sameOp⟩
  · intro pc ins op found decoded notJump
    obtain ⟨ins', found', done⟩ := each pc ins found
    rw [found', (retarget_spec decoded done).others notJump]
  · rintro ⟨pc, ins', found', jumps'⟩
    have inRange : pc < insns.length := length ▸ (List.getElem?_eq_some_iff.mp found').1
    have found : insns[pc]? = some insns[pc] := List.getElem?_eq_getElem inRange
    obtain ⟨other, foundOther, done⟩ := each pc insns[pc] found
    rw [found', Option.some.injEq] at foundOther
    subst foundOther
    obtain ⟨op, decoded, _⟩ := wellFormed.valid found
    obtain ⟨sameOp, _, jumps⟩ := retarget_spec decoded done
    rw [jumpsTo_iff (sameOp.trans decoded)] at jumps'
    rcases jumps jumps'.1 fromPC jumps'.2 with same | ⟨_, away⟩
    · exact same
    · exact absurd rfl away

/-! Groups of returns with one value. -/

theorem retValue_retA (decoded : ins.op? = some .retA) : retValue ins = some retRegisterA := by
  rw [retValue, ← Op.code_of_ofCode? decoded, if_pos (by decide)]

theorem retValue_retK (decoded : ins.op? = some .retK) : retValue ins = some (ins.k.setWidth 64) := by
  rw [retValue, ← Op.code_of_ofCode? decoded, if_neg (by decide), if_pos (by decide)]

def ReturnAt (insns : List Instruction) (value : BitVec 64) (pc : Nat) : Prop :=
  ∃ ins op, insns[pc]? = some ins ∧ ins.op? = some op ∧ op.flavour = .final ∧
    retValue ins = some value

theorem final_cases (final : op.flavour = .final) : op = .retK ∨ op = .retA := by
  cases op <;> simp_all [Op.flavour]

variable {value : BitVec 64}

theorem returns_same {first second : Instruction} {firstOp secondOp : Op}
    (firstDecoded : first.op? = some firstOp) (secondDecoded : second.op? = some secondOp)
    (firstFinal : firstOp.flavour = .final) (secondFinal : secondOp.flavour = .final)
    (firstValue : retValue first = some value) (secondValue : retValue second = some value) :
    first.equal second = true ∧ first.ending = second.ending := by
  have firstCode := (Op.code_of_ofCode? firstDecoded).symm
  have secondCode := (Op.code_of_ofCode? secondDecoded).symm
  have differ : ∀ k : BitVec 32, k.setWidth 64 ≠ retRegisterA := by
    intro k same
    have nat := congrArg BitVec.toNat same
    rw [BitVec.toNat_setWidth, Nat.mod_eq_of_lt (by omega)] at nat
    have := k.isLt
    have wide : retRegisterA.toNat = 0xaaaaaaaaaaaaaaaa := rfl
    omega
  rcases final_cases firstFinal with rfl | rfl <;> rcases final_cases secondFinal with rfl | rfl
  · rw [retValue_retK firstDecoded, Option.some.injEq] at firstValue
    rw [retValue_retK secondDecoded, Option.some.injEq] at secondValue
    have operand : first.k = second.k := by
      have nat := congrArg BitVec.toNat (firstValue.trans secondValue.symm)
      rw [BitVec.toNat_setWidth, BitVec.toNat_setWidth, Nat.mod_eq_of_lt (by omega),
        Nat.mod_eq_of_lt (by omega)] at nat
      exact BitVec.eq_of_toNat_eq nat
    refine ⟨?_, by simp only [ending, firstCode, secondCode, operand]⟩
    simp +decide [equal, cls, firstCode, secondCode, operand]
  · rw [retValue_retK firstDecoded, Option.some.injEq] at firstValue
    rw [retValue_retA secondDecoded, Option.some.injEq] at secondValue
    exact absurd (firstValue.trans secondValue.symm) (differ _)
  · rw [retValue_retA firstDecoded, Option.some.injEq] at firstValue
    rw [retValue_retK secondDecoded, Option.some.injEq] at secondValue
    exact absurd (secondValue.trans firstValue.symm) (differ _)
  · refine ⟨?_, ?_⟩
    · simp +decide [equal, cls, firstCode, secondCode]
    · simp +decide [ending, firstCode, secondCode]

theorem ReturnAt.moved (moved : JumpsMoved insns after)
    (isReturn : ReturnAt insns value pc) : ReturnAt after value pc := by
  obtain ⟨ins, op, found, decoded, final, returns⟩ := isReturn
  exact ⟨ins, op, moved.others pc ins op found decoded (by rw [final]; rfl), decoded, final, returns⟩

theorem rewriteAllJumpsToReturn_spec (wellFormed : WellFormed insns)
    (fromReturn : ReturnAt insns value fromPC) (toReturn : ReturnAt insns value toPC) :
    ∃ result, rewriteAllJumpsToReturn insns fromPC toPC = some result ∧
      ∀ after, result = some after → JumpsMoved insns after ∧ JumpedTo insns fromPC ∧
        (JumpedTo after fromPC → fromPC = toPC) := by
  obtain ⟨fromIns, fromOp, fromFound, fromDecoded, fromFinal, fromValue⟩ := fromReturn
  obtain ⟨toIns, toOp, toFound, toDecoded, toFinal, toValue⟩ := toReturn
  obtain ⟨equal, ending⟩ := returns_same fromDecoded toDecoded fromFinal toFinal fromValue toValue
  have sameTree : codeTree insns toPC = codeTree insns fromPC := by
    rw [codeTree_node toFound, codeTree_node fromFound, node_eq toDecoded, node_eq fromDecoded,
      toFinal, fromFinal, ending]
  simp only [rewriteAllJumpsToReturn, fromFound, toFound, Option.bind_eq_bind, Option.bind_some,
    isReturn_eq fromDecoded, isReturn_eq toDecoded, fromFinal, toFinal,
    equal, decide_true, Bool.not_true, Bool.false_eq_true, or_self, ↓reduceIte]
  split
  · exact ⟨none, rfl, nofun⟩
  rename_i some
  refine ⟨_, rfl, fun after done => ?_⟩
  obtain ⟨moved, jumps⟩ := retargetAll_moved wellFormed sameTree (List.getElem?_eq_some_iff.mp toFound).1 done
  obtain ⟨pc, member⟩ := exists_mem_of_ne_nil _ some
  obtain ⟨ins, found, goes⟩ := mem_places.mp member
  exact ⟨moved, ⟨pc, ins, found, goes⟩, jumps⟩

theorem moveJumps_spec (candidates : List Nat)
    (wellFormed : WellFormed insns) (fromReturn : ReturnAt insns value fromPC)
    (returns : ∀ toPC ∈ candidates, ReturnAt insns value toPC) (others : fromPC ∉ candidates) :
    ∃ after changed, moveJumps fromPC candidates insns = some (after, changed) ∧
      JumpsMoved insns after ∧ (changed = false → after = insns) ∧
      (changed = true → 0 < fromPC ∧ ¬ JumpedTo after fromPC) := by
  induction candidates with
  | nil => exact ⟨insns, false, rfl, .refl wellFormed, fun _ => rfl, nofun⟩
  | cons toPC candidates ih =>
    obtain ⟨result, done, spec⟩ := rewriteAllJumpsToReturn_spec wellFormed fromReturn (returns toPC mem_cons_self)
    have away : fromPC ≠ toPC := fun same => others (same ▸ mem_cons_self)
    simp only [moveJumps, done, Option.bind_eq_bind, Option.bind_some]
    cases result with
    | none =>
      exact ih (forall_mem_cons.mp returns).2
        fun member => others (mem_cons_of_mem _ member)
    | some after =>
      obtain ⟨moved, ⟨pc, ins, found, goes⟩, jumps⟩ := spec after rfl
      refine ⟨after, true, rfl, moved, nofun, fun _ => ⟨?_, fun jumped => away (jumps jumped)⟩⟩
      obtain ⟨op, decoded, _⟩ := wellFormed.valid found
      have := successors_gt ((jumpsTo_iff decoded).mp goes).2
      omega

end BVisor.Bpf
