import BVisor.Bpf.Optimizer.Freshness

/-! The passes that remove instructions. -/

namespace BVisor.Bpf

open Data List Option

variable {insns after : List Instruction} {pc : Nat} {ins : Instruction} {live : Nat → Prop}
  {info : LastWrite}

theorem Arrives.reachable (arrives : Arrives insns pc info) : Reachable insns pc := by
  induction arrives with
  | start => exact .refl
  | step _ found member ih => exact ih.tail ⟨_, found, member⟩

theorem after_jump {op : Op} (decoded : ins.op? = some op)
    (jump : op.flavour = .direct ∨ op.flavour = .conditional) : info.after ins = info := by
  have keepsA : op.writesA = false := by cases op <;> simp_all [Op.flavour, Op.writesA]
  have keepsX : op.writesX = false := by cases op <;> simp_all [Op.flavour, Op.writesX]
  have notStx : op ≠ .stx := by cases op <;> simp_all [Op.flavour]
  have harmless : ∀ loaded, clobbers ins loaded = false := by
    intro loaded
    simp only [clobbers, decoded]
    split <;> simp [keepsX, notStx]
  simp [LastWrite.after, modifiesRegisterA_eq decoded, keepsA, harmless]

theorem arrives_of_meets (inside : Inside insns live) {start : Nat} (startLive : live start)
    {before info : LastWrite} (arrives : Arrives insns start before)
    (meets : CodeTree.Meets recordWrite before (codeTree insns start) (pc, ins) info) :
    Arrives insns pc info ∧ insns[pc]? = some ins ∧
      ∃ op, ins.op? = some op ∧ op.flavour = .plain := by
  induction rest : insns.length - start using Nat.strong_induction_on generalizing start before with
  | _ rest ih =>
    obtain ⟨here, found, ⟨op, decoded, _⟩, stays⟩ := inside start startLive
    have bound := (List.getElem?_eq_some_iff.mp found).1
    have later : ∀ next ∈ successors start here, start < next →
        CodeTree.Meets recordWrite (before.after here) (codeTree insns next) (pc, ins) info →
        Arrives insns pc info ∧ insns[pc]? = some ins ∧
          ∃ op, ins.op? = some op ∧ op.flavour = .plain :=
      fun next member forward meets => ih (insns.length - next) (by omega)
        (stays next member) (arrives.step found member) meets rfl
    rw [Instruction.successors_eq decoded] at later
    rw [codeTree_node found, node_eq decoded] at meets
    cases flavour : op.flavour with
    | plain =>
      simp only [flavour, mem_singleton, forall_eq] at later meets
      rcases meets with ⟨same, rfl⟩ | meets
      · obtain ⟨rfl, rfl⟩ := Prod.mk.inj same
        exact ⟨arrives, found, op, decoded, flavour⟩
      · exact later (by omega) meets
    | direct =>
      simp only [flavour, mem_singleton, forall_eq] at later meets
      rw [after_jump decoded (.inl flavour)] at later
      exact later (by omega) meets
    | conditional =>
      simp only [flavour, mem_cons, not_mem_nil, or_false, forall_eq_or_imp,
        forall_eq, CodeTree.meets_decideBy] at later meets
      rw [after_jump decoded (.inr flavour)] at later
      exact meets.elim (later.1 (by omega)) (later.2 (by omega))
    | final => simp only [flavour, CodeTree.Meets] at meets

theorem arrives_of_comes (inside : Inside insns live) (entry : live 0)
    (comes : (codeTree insns 0).Comes (pc, ins) info) :
    Arrives insns pc info ∧ insns[pc]? = some ins ∧
      ∃ op, ins.op? = some op ∧ op.flavour = .plain :=
  arrives_of_meets inside entry .start comes

/-- Nothing is lost from `insns` to `after`. -/
def SameMeaning (insns after : List Instruction) : Prop :=
  ∀ endian input, Tree.value endian input (codeTree after 0) .initial =
    Tree.value endian input (codeTree insns 0) .initial

theorem SameMeaning.of_tree (same : codeTree after 0 = codeTree insns 0) : SameMeaning insns after := by
  intro endian input
  rw [same]

variable {marked : Nat → Instruction → Bool} {removed : Nat} {given : Prop}

theorem mem_places : pc ∈ places insns marked ↔ ∃ ins, insns[pc]? = some ins ∧ marked pc ins = true := by
  simp only [places, mem_filter, mem_range]
  constructor
  · rintro ⟨bound, isMarked⟩
    rw [List.getElem?_eq_getElem bound] at isMarked ⊢
    exact ⟨_, rfl, isMarked⟩
  · rintro ⟨ins, found, isMarked⟩
    exact ⟨(List.getElem?_eq_some_iff.mp found).1, by rw [found]; exact isMarked⟩

theorem places_sorted :
    (places insns marked).Pairwise (· < ·) :=
  List.Pairwise.filter _ pairwise_lt_range

theorem applyRemoval_eq :
    applyRemoval insns (places insns marked) =
      ((places insns marked).foldr removeAt insns, decide (places insns marked ≠ [])) := by
  have sorted : (places insns marked).insertionSort (· ≤ ·) = places insns marked :=
    List.Pairwise.insertionSort_eq (places_sorted.imp Nat.le_of_lt)
  rw [applyRemoval, sorted]
  split
  · rename_i none
    simp [none]
  · rename_i some
    simp [some]

theorem shift_zero : shift removed 0 = 0 := by
  simp [shift]

/-- The loop over the indexes. `f` says what has become of each action of the tree: which are gone,
and where the others are. -/
structure Removing (insns : List Instruction) (toRemove remaining : List Nat)
    (current : List Instruction) (f : Action → Option Action) : Prop where
  wellFormed : WellFormed current
  count : current.length + toRemove.length = insns.length + remaining.length
  skippable : ∀ place ∈ remaining, place ∈ toRemove ∧ Skippable current place
  tree : ∀ g, (codeTree current 0).collect g =
    (codeTree insns 0).collect fun action => (f action).bind g
  gone : ∀ action, f action = none → action.1 ∈ toRemove
  stays : ∀ action other, f action = some other →
    other.2 = action.2 ∧ ∀ place ∈ remaining, other.1 = place → action.1 = place

theorem Skippable.removeAt (before : pc < removed)
    (skippable : Skippable insns pc) : Skippable (removeAt removed insns) pc := by
  obtain ⟨ins, op, found, decoded, flavour⟩ := skippable
  have stays : shift removed pc = pc := by rw [shift, if_neg (by omega)]
  have found' := @removeAt_getElem? insns _ _ (show pc ≠ removed by omega)
  rw [stays, found, map_some] at found'
  refine ⟨moved removed pc ins, op, found', moved_op?.trans decoded, ?_⟩
  rcases flavour with plain | ⟨direct, zero⟩
  · exact .inl plain
  have offset : ins.k.toNat = 0 := by simp [zero]
  have target := moved_direct decoded direct (show pc ≠ removed by omega)
  rw [offset, stays, shift, if_neg (by omega)] at target
  have zeroAgain : (moved removed pc ins).k.toNat = (0 : BitVec 32).toNat := by
    change _ = 0
    omega
  exact .inr ⟨direct, BitVec.eq_of_toNat_eq zeroAgain⟩

theorem Removing.step {toRemove lower : List Nat} {place : Nat} {current : List Instruction}
    {f : Action → Option Action} (lowest : ∀ earlier ∈ lower, earlier < place)
    (removing : Removing insns toRemove (lower ++ [place]) current f) :
    Removing insns toRemove lower (removeAt place current)
      fun action => (f action).bind (Action.drop place) := by
  obtain ⟨wellFormed, count, skippable, before, gone, stays⟩ := removing
  obtain ⟨listed, here⟩ := skippable place (by simp)
  obtain ⟨_, found, _⟩ := here.successors
  have bound := (List.getElem?_eq_some_iff.mp found).1
  have tree : codeTree (removeAt place current) 0 = (codeTree current 0).without place := by
    have shifted := codeTree_removeAt place wellFormed.inside (fun _ => here) wellFormed.nonempty
    rwa [shift_zero] at shifted
  refine ⟨wellFormed.removeAt here, ?_, ?_, ?_, ?_, ?_⟩
  · rw [length_removeAt bound]
    simp only [length_append, length_singleton] at count
    omega
  · exact fun earlier member => (skippable earlier (mem_append_left _ member)).imp_right
      (Skippable.removeAt (lowest earlier member))
  · intro g
    rw [tree, Tree.without, CodeTree.collect_collect, before]
    simp only [Option.bind_assoc]
  · intro action dropped
    cases moved : f action with
    | none => exact gone action moved
    | some other =>
      have removed : other.1 = place := by simpa [moved] using dropped
      rwa [(stays action other moved).2 place (by simp) removed]
  · intro action last kept
    obtain ⟨other, moved, left⟩ := Option.bind_eq_some_iff.mp kept
    obtain ⟨same, places⟩ := stays action other moved
    obtain ⟨_, rfl⟩ := Action.drop_eq_some.mp left
    refine ⟨same, fun earlier member shifted => places earlier (mem_append_left _ member) ?_⟩
    have below := lowest earlier member
    simp only [shift] at shifted
    split at shifted <;> omega

theorem Removing.initial {toRemove : List Nat} (wellFormed : WellFormed insns)
    (skippable : ∀ place ∈ toRemove, Skippable insns place) :
    Removing insns toRemove toRemove insns some := by
  refine ⟨wellFormed, rfl, fun place member => ⟨member, skippable place member⟩, fun _ => rfl, ?_, ?_⟩
  · intro action dropped
    cases dropped
  · rintro action _ ⟨⟩
    exact ⟨rfl, fun _ _ => id⟩

/-- A program that is no longer and, under a condition, means the same. -/
structure Improves (given : Prop) (insns after : List Instruction) : Prop where
  wellFormed : WellFormed after
  meaning : given → SameMeaning insns after
  length : after.length ≤ insns.length

theorem applyRemoval_improves (marked : Nat → Instruction → Bool) (wellFormed : WellFormed insns)
    (skippable : ∀ place ∈ places insns marked, Skippable insns place)
    (removable : given → ∀ place ∈ places insns marked, (codeTree insns 0).Removable place) :
    ∃ after changed, applyRemoval insns (places insns marked) = (after, changed) ∧
      (changed = false → after = insns) ∧
      (changed = true → Improves given insns after ∧ after.length < insns.length) := by
  refine ⟨_, _, applyRemoval_eq, ?_, ?_⟩
  · intro unchanged
    have none : places insns marked = [] := by simpa using unchanged
    simp [none]
  · intro changed
    have some : places insns marked ≠ [] := by simpa using changed
    have nonempty : 0 < (places insns marked).length := length_pos_iff.mpr some
    obtain ⟨f, removing⟩ : ∃ f, Removing insns (places insns marked) []
        ((places insns marked).foldr removeAt insns) f :=
      foldr_removeAt (fun remaining current => ∃ f, Removing insns _ remaining current f)
        (fun lower place current lowest ⟨_, holds⟩ => ⟨_, holds.step lowest⟩) places_sorted
        ⟨_, .initial wellFormed skippable⟩
    have count := removing.count
    simp only [length_nil] at count
    refine ⟨⟨removing.wellFormed, fun holds endian input => ?_, by omega⟩, by omega⟩
    rw [← value_collect_some, removing.tree, value_collect]
    · intro action other kept
      exact (removing.stays action other (by simpa using kept)).1
    · intro action dropped
      exact removable holds action.1 (removing.gone action (by simpa using dropped))

theorem removeZeroInstructionJumps_sound (wellFormed : WellFormed insns) :
    ∃ after changed, removeZeroInstructionJumps insns = some (after, changed) ∧
      (changed = false → after = insns) ∧
      (changed = true → Improves True insns after ∧ after.length < insns.length) := by
  have zeroJump : ∀ place ∈ places insns (fun _ ins => ins.isUnconditionalJump && ins.k == 0),
      ∃ ins op, insns[place]? = some ins ∧ ins.op? = some op ∧ op.flavour = .direct ∧
        ins.k = 0 := by
    intro place member
    obtain ⟨ins, found, isMarked⟩ := mem_places.mp member
    obtain ⟨op, decoded, _⟩ := wellFormed.valid found
    simp only [Instruction.isUnconditionalJump_eq decoded, Bool.and_eq_true, decide_eq_true_eq,
      beq_iff_eq] at isMarked
    exact ⟨ins, op, found, decoded, isMarked.1, isMarked.2⟩
  obtain ⟨after, changed, applied, result⟩ := applyRemoval_improves
    (fun _ ins => ins.isUnconditionalJump && ins.k == 0) wellFormed
    (fun place member => by
      obtain ⟨ins, op, found, decoded, direct, zero⟩ := zeroJump place member
      exact ⟨ins, op, found, decoded, .inr ⟨direct, zero⟩⟩)
    (fun _ place member ins info comes => by
      -- The tree has no action at a jump.
      obtain ⟨other, op, found, decoded, direct, _⟩ := zeroJump place member
      obtain ⟨_, found', op', decoded', plain⟩ := arrives_of_comes wellFormed.inside wellFormed.nonempty comes
      rw [found, some.injEq] at found'
      subst found'
      rw [decoded, some.injEq] at decoded'
      rw [decoded', plain] at direct
      cases direct)
  exact ⟨after, changed, by rw [removeZeroInstructionJumps, applied], result⟩

theorem successors_gt {next : Nat} (member : next ∈ successors pc ins) : pc < next := by
  simp only [successors] at member
  split at member
  · simp at member
  split at member
  · obtain ⟨offset, _, rfl⟩ := mem_map.mp member
    omega
  · simp only [mem_singleton] at member
    omega

theorem mem_reverseWalk {target : Nat} : pc ∈ reverseWalk insns target ↔ Edge insns pc target := by
  simp [reverseWalk, mem_places, Edge]

/-- The backward walk to an equal load finds the only record with which control can come to
`target`. -/
theorem lastModifiedA_spec {steps target before : Nat} {load : Instruction} (isLoad : load.cls = Code.ld)
    (walked : lastModifiedA insns steps (reverseWalk insns target) = some before)
    (equal : (insns[before]?).any (load.equal ·) = true)
    (kept : keepsOperand insns load steps (reverseWalk insns target) = true)
    (reached : Reachable insns target) :
    ∃ loaded, load.equal loaded = true ∧
      ∀ info, Arrives insns target info → info = some (loaded, false) := by
  induction steps generalizing target with
  | zero => simp [lastModifiedA] at walked
  | succ steps ih =>
    unfold lastModifiedA at walked
    unfold keepsOperand at kept
    split at walked
    · rename_i beforePC single
      have edge : Edge insns beforePC target := mem_reverseWalk.mp (by rw [single]; exact mem_singleton_self _)
      have onlyEdge : ∀ pc, Edge insns pc target → pc = beforePC := by
        intro pc other
        have listed := mem_reverseWalk.mpr other
        rwa [single, mem_singleton] at listed
      obtain ⟨ins, found, member⟩ := edge
      have forward := successors_gt member
      have lastStep : ∀ info, Arrives insns target info →
          ∃ before, Arrives insns beforePC before ∧ info = before.after ins := by
        intro info arrives
        cases arrives with
        | start => omega
        | @step pc _ before other arrives foundOther memberOther =>
          obtain rfl := onlyEdge pc ⟨other, foundOther, memberOther⟩
          rw [found, some.injEq] at foundOther
          subst foundOther
          exact ⟨before, arrives, rfl⟩
      simp only [single, found, any_some] at walked kept
      cases modifies : ins.modifiesRegisterA with
      | true =>
        simp only [modifies, Bool.not_true, Bool.false_eq_true, ↓reduceIte, some.injEq] at walked
        subst walked
        rw [found, any_some] at equal
        refine ⟨ins, equal, fun info arrives => ?_⟩
        obtain ⟨before, _, rfl⟩ := lastStep info arrives
        simp [LastWrite.after, modifies]
      | false =>
        simp only [modifies, Bool.not_false, ↓reduceIte] at walked kept
        obtain ⟨untouched, kept⟩ := Bool.and_eq_true_iff.mp kept
        have reachedBefore : Reachable insns beforePC := by
          cases reached with
          | refl => omega
          | @tail pc _ before edge => exact onlyEdge pc edge ▸ before
        obtain ⟨loaded, equalLoaded, only⟩ := ih walked kept reachedBefore
        refine ⟨loaded, equalLoaded, fun info arrives => ?_⟩
        obtain ⟨before, arrivesBefore, rfl⟩ := lastStep info arrives
        rw [only before arrivesBefore]
        simp only [clobbers_equal isLoad equalLoaded, Bool.not_eq_true'] at untouched
        simp [LastWrite.after, modifies, untouched]
    · cases walked

theorem isRedundantLoad_removable (wellFormed : WellFormed insns)
    (found : insns[pc]? = some ins) (redundant : isRedundantLoad insns pc ins = true) :
    Skippable insns pc ∧ (staleLoads insns = [] → (codeTree insns 0).Removable pc) := by
  obtain ⟨op, decoded, _⟩ := wellFormed.valid found
  have isMarked := redundant
  simp only [isRedundantLoad, Bool.and_eq_true, beq_iff_eq] at redundant
  obtain ⟨isLoad, redundant⟩ := redundant
  split at redundant
  · cases redundant
  rename_i before walked
  have isLd := (cls_eq_ld decoded).mp isLoad
  have plain : op.flavour = .plain := by cases op <;> first | rfl | cases isLd
  refine ⟨⟨ins, op, found, decoded, .inl plain⟩, fun fresh other info comes => ?_⟩
  have kept : keepsOperand insns ins insns.length (reverseWalk insns pc) = true := by
    by_contra stale
    have listed : pc ∈ staleLoads insns := mem_places.mpr ⟨ins, found, by simp [isMarked, stale]⟩
    rw [fresh] at listed
    cases listed
  obtain ⟨arrives, found', _⟩ := arrives_of_comes wellFormed.inside wellFormed.nonempty comes
  obtain ⟨loaded, equal, only⟩ := lastModifiedA_spec isLoad walked redundant kept arrives.reachable
  rw [found, some.injEq] at found'
  subst found'
  exact ⟨isLoad, loaded, only info arrives, equal⟩

theorem removeRedundantLoads_sound (wellFormed : WellFormed insns) :
    ∃ after changed, removeRedundantLoads insns = some (after, changed) ∧
      (changed = false → after = insns) ∧
      (changed = true → Improves (staleLoads insns = []) insns after ∧ after.length < insns.length) := by
  have noPanic : places insns
      (fun pc ins => (successors pc ins).any (insns.length ≤ ·)) = [] := by
    refine eq_nil_iff_forall_not_mem.mpr fun pc member => ?_
    obtain ⟨ins, found, outside⟩ := mem_places.mp member
    obtain ⟨next, isNext, past⟩ := any_eq_true.mp outside
    have := wellFormed.edge_lt ⟨ins, found, isNext⟩
    simp only [decide_eq_true_eq] at past
    omega
  have redundant : ∀ place ∈ places insns (isRedundantLoad insns),
      Skippable insns place ∧ (staleLoads insns = [] → (codeTree insns 0).Removable place) := by
    intro place member
    obtain ⟨ins, found, isMarked⟩ := mem_places.mp member
    exact isRedundantLoad_removable wellFormed found isMarked
  obtain ⟨after, changed, applied, result⟩ := applyRemoval_improves _ wellFormed
    (fun place member => (redundant place member).1)
    (fun fresh place member => (redundant place member).2 fresh)
  exact ⟨after, changed, by rw [removeRedundantLoads, if_neg (not_not.mpr noPanic), applied],
    result⟩

end BVisor.Bpf
