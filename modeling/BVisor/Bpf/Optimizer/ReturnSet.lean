import BVisor.Bpf.Optimizer.Returns

/-! The pass over all groups of returns leaves a return that nothing leads to, which
`removeDeadCode` then removes: this is why the optimizer makes progress. -/

namespace BVisor.Bpf

open List Option

variable {insns after : List Instruction} {pc : Nat} {fallsThrough : Nat → Bool} {value : BitVec 64}

def Abandoned (fallsThrough : Nat → Bool) (after : List Instruction) (place : Nat) : Prop :=
  0 < place ∧ fallsThrough place = false ∧ ¬ JumpedTo after place

/-- What trying to empty the returns at `places` gives: the same program, or one in which nothing
jumps to one of them any more. -/
def Shrinks (fallsThrough : Nat → Bool) (insns : List Instruction) (places : List Nat)
    (result : PassResult) : Prop :=
  ∃ after changed, result = some (after, changed) ∧ JumpsMoved insns after ∧
    (changed = false → after = insns) ∧
    (changed = true → ∃ place ∈ places, Abandoned fallsThrough after place)

theorem Shrinks.none (wellFormed : WellFormed insns) :
    Shrinks fallsThrough insns [] (some (insns, false)) :=
  ⟨insns, false, rfl, .refl wellFormed, fun _ => rfl, nofun⟩

theorem Shrinks.andThen {places later : List Nat} {result : PassResult}
    {rest : List Instruction → PassResult} (first : Shrinks fallsThrough insns places result)
    (second : ∀ moved, JumpsMoved insns moved → Shrinks fallsThrough moved later (rest moved)) :
    Shrinks fallsThrough insns (places ++ later) (do
      let (moved, changed) ← result
      let (final, changedLater) ← rest moved
      some (final, changed || changedLater)) := by
  obtain ⟨moved, changed, rfl, isMoved, unchanged, abandoned⟩ := first
  obtain ⟨after, changedLater, done, isMovedLater, unchangedLater, abandonedLater⟩ := second moved isMoved
  refine ⟨after, changed || changedLater, ?_, isMoved.trans isMovedLater, ?_, ?_⟩
  · simp only [done, bind_eq_bind, bind_some]
  · intro same
    obtain ⟨same, sameLater⟩ := Bool.or_eq_false_iff.mp same
    rw [unchangedLater sameLater, unchanged same]
  · intro isChanged
    cases changedLater with
    | true =>
      obtain ⟨place, member, isAbandoned⟩ := abandonedLater rfl
      exact ⟨place, mem_append_right _ member, isAbandoned⟩
    | false =>
      rw [Bool.or_false] at isChanged
      obtain ⟨place, member, isAbandoned⟩ := abandoned isChanged
      rw [unchangedLater rfl]
      exact ⟨place, mem_append_left _ member, isAbandoned⟩

variable (fallsThrough) in
theorem shrinkReturn_spec {others : List Nat} (wellFormed : WellFormed insns)
    (isReturn : ReturnAt insns value pc) (returns : ∀ other ∈ others, ReturnAt insns value other)
    (notAgain : pc ∉ others) :
    Shrinks fallsThrough insns [pc] (shrinkReturn fallsThrough pc others insns) := by
  rw [shrinkReturn]
  split
  · exact ⟨insns, false, rfl, .refl wellFormed, fun _ => rfl, nofun⟩
  rename_i falls
  obtain ⟨after, changed, done, moved, unchanged, abandoned⟩ := moveJumps_spec
    others.reverse wellFormed isReturn
    (fun other member => returns other (mem_reverse.mp member))
    (fun member => notAgain (mem_reverse.mp member))
  refine ⟨after, changed, done, moved, unchanged, fun isChanged => ⟨pc, mem_singleton_self pc, ?_⟩⟩
  exact ⟨(abandoned isChanged).1, by simpa using falls, (abandoned isChanged).2⟩

variable (fallsThrough) in
theorem shrinkGroup_spec {pcs : List Nat} (wellFormed : WellFormed insns)
    (returns : ∀ pc ∈ pcs, ReturnAt insns value pc) (distinct : pcs.Nodup) :
    Shrinks fallsThrough insns pcs (shrinkGroup fallsThrough pcs insns) := by
  induction pcs generalizing insns with
  | nil => exact .none wellFormed
  | cons unpopularPC others ih =>
    obtain ⟨notAgain, distinctOthers⟩ := nodup_cons.mp distinct
    have returnsOthers := (forall_mem_cons.mp returns).2
    refine (shrinkReturn_spec fallsThrough wellFormed (returns unpopularPC mem_cons_self)
      returnsOthers notAgain).andThen fun moved isMoved => ?_
    exact ih isMoved.rewritten.wellFormed (fun pc member => (returnsOthers pc member).moved isMoved)
      distinctOthers

variable (fallsThrough) in
theorem shrinkGroups_spec {groups : List (List Nat)} (wellFormed : WellFormed insns)
    (returns : ∀ pcs ∈ groups, pcs.Nodup ∧ ∃ value, ∀ pc ∈ pcs, ReturnAt insns value pc) :
    Shrinks fallsThrough insns groups.flatten (shrinkGroups fallsThrough groups insns) := by
  induction groups generalizing insns with
  | nil => exact .none wellFormed
  | cons pcs groups ih =>
    obtain ⟨distinct, value, isReturn⟩ := returns pcs mem_cons_self
    refine (shrinkGroup_spec fallsThrough wellFormed isReturn distinct).andThen fun moved isMoved => ?_
    refine ih isMoved.rewritten.wellFormed fun others member => ?_
    obtain ⟨distinct, value, isReturn⟩ := returns others (mem_cons_of_mem _ member)
    exact ⟨distinct, value, fun pc inOthers => (isReturn pc inOthers).moved isMoved⟩

open Instruction

theorem Abandoned.unreachable (moved : JumpsMoved insns after)
    (abandoned : Abandoned (retCanBeFallenThrough insns) after pc) : ¬ Reachable after pc := by
  obtain ⟨positive, falls, unjumped⟩ := abandoned
  intro reached
  cases reached with
  | refl => omega
  | @tail before _ _ edge =>
    obtain ⟨ins', found', member⟩ := edge
    obtain ⟨op, decoded', _⟩ := moved.rewritten.wellFormed.valid found'
    cases isJump : op.flavour.isJump with
    | true => exact unjumped ⟨before, ins', found', (jumpsTo_iff decoded').mpr ⟨isJump, member⟩⟩
    | false =>
      have bound : before < insns.length := moved.rewritten.length ▸ (List.getElem?_eq_some_iff.mp found').1
      have found : insns[before]? = some insns[before] := List.getElem?_eq_getElem bound
      obtain ⟨other, foundOther, same⟩ := moved.sameOp before insns[before] found
      rw [found', some.injEq] at foundOther
      subst foundOther
      have decoded : insns[before].op? = some op := same.symm.trans decoded'
      rw [successors_eq decoded'] at member
      cases flavour : op.flavour with
      | direct | conditional => simp [flavour, Flavour.isJump] at isJump
      | final => simp [flavour] at member
      | plain =>
        simp only [flavour, mem_singleton] at member
        have through : retCanBeFallenThrough insns pc = true := by
          refine any_eq_true.mpr ⟨before, mem_range.mpr (by omega), ?_⟩
          simp [member, found, isReturn_eq decoded, isJump_eq decoded, flavour]
        simp [through] at falls

theorem retValueToPC_spec (wellFormed : WellFormed insns) :
    ∀ pcs ∈ retValueToPC insns, pcs.Nodup ∧ ∃ value, ∀ pc ∈ pcs, ReturnAt insns value pc := by
  intro pcs member
  obtain ⟨value, _, rfl⟩ := mem_map.mp member
  refine ⟨places_sorted.imp Nat.ne_of_lt, value, fun pc isPlace => ?_⟩
  obtain ⟨ins, found, isReturn⟩ := mem_places.mp isPlace
  obtain ⟨op, decoded, _⟩ := wellFormed.valid found
  simp only [isReturn_eq decoded, Bool.and_eq_true, decide_eq_true_eq, beq_iff_eq] at isReturn
  exact ⟨ins, op, found, decoded, isReturn.1, isReturn.2⟩

theorem optimizeJumpsToSmallestSetOfReturns_sound {order : MapOrder}
    (visits : ∀ insns groups, (order insns groups).Perm groups) (wellFormed : WellFormed insns) :
    ∃ after changed, optimizeJumpsToSmallestSetOfReturns order insns = some (after, changed) ∧
      (changed = false → after = insns) ∧
      (changed = true → Rewritten insns after ∧
        ∃ pc < after.length, ¬ Reachable after pc) := by
  have noPanic : (insns.filter (·.isReturn)).any (fun ins => (retValue ins).isNone) = false := by
    refine any_eq_false.mpr fun ins member => ?_
    obtain ⟨inProgram, isReturn⟩ := mem_filter.mp member
    obtain ⟨pc, found⟩ := mem_iff_getElem?.mp inProgram
    obtain ⟨op, decoded, _⟩ := wellFormed.valid found
    rw [isReturn_eq decoded, decide_eq_true_eq] at isReturn
    rcases final_cases isReturn with rfl | rfl
    · simp [retValue_retK decoded]
    · simp [retValue_retA decoded]
  have visited := visits insns (retValueToPC insns)
  have returns : ∀ pcs ∈ (order insns (retValueToPC insns)).map
      (·.insertionSort (popularityOrder insns)),
      pcs.Nodup ∧ ∃ value, ∀ pc ∈ pcs, ReturnAt insns value pc := by
    intro pcs member
    obtain ⟨unsorted, isGroup, rfl⟩ := mem_map.mp member
    obtain ⟨distinct, value, isReturn⟩ :=
      retValueToPC_spec wellFormed unsorted (visited.mem_iff.mp isGroup)
    exact ⟨(perm_insertionSort _ _).nodup_iff.mpr distinct, value, fun pc isPlace =>
      isReturn pc ((mem_insertionSort _).mp isPlace)⟩
  obtain ⟨after, changed, done, moved, unchanged, abandoned⟩ :=
    shrinkGroups_spec (retCanBeFallenThrough insns) wellFormed returns
  refine ⟨after, changed, ?_, unchanged, fun isChanged => ⟨moved.rewritten, ?_⟩⟩
  · rw [optimizeJumpsToSmallestSetOfReturns, noPanic, if_neg (by simp)]
    exact done
  · obtain ⟨place, inGroups, isAbandoned⟩ := abandoned isChanged
    obtain ⟨pcs, isGroup, member⟩ := mem_flatten.mp inGroups
    obtain ⟨_, value, isReturn⟩ := returns pcs isGroup
    obtain ⟨ins, _, found, _⟩ := isReturn place member
    exact ⟨place, moved.rewritten.length ▸ (List.getElem?_eq_some_iff.mp found).1, isAbandoned.unreachable moved⟩

end BVisor.Bpf
