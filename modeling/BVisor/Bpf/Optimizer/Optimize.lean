import BVisor.Bpf.Optimizer.ReturnSet

/-! The fixpoint of all passes. -/

namespace BVisor.Bpf

open Option

variable {insns after : List Instruction} {order : MapOrder}

open Classical in
/-- 1 for a program without dead code, 0 for one that `removeDeadCode` will shorten. -/
noncomputable def allAlive (insns : List Instruction) : Nat :=
  if ∀ pc < insns.length, Reachable insns pc then 1 else 0

/-- Every change makes this smaller: the program gets shorter, or gets dead code, or its jumps get
simpler or longer. -/
noncomputable def size (insns : List Instruction) : Nat ×ₗ Nat ×ₗ Nat :=
  toLex (insns.length, toLex (allAlive insns, totalWeight insns))

open Prod.Lex

theorem size_lt_of_length (shorter : after.length < insns.length) : size after < size insns := by
  rw [size, size, toLex_lt_toLex]
  exact .inl shorter

theorem size_lt_of_dead (length : after.length = insns.length) (alive : ∀ pc < insns.length, Reachable insns pc)
    (dead : ∃ pc < after.length, ¬ Reachable after pc) : size after < size insns := by
  rw [size, size, toLex_lt_toLex, toLex_lt_toLex]
  refine .inr ⟨length, .inl ?_⟩
  rw [allAlive, allAlive, if_pos alive, if_neg (by simpa using dead)]
  exact Nat.zero_lt_one

theorem size_lt_of_inPlace (inPlace : InPlace insns after true) : size after < size insns := by
  have lighter := inPlace.lighter rfl
  have length := inPlace.rewritten.length
  rw [size, size, toLex_lt_toLex, toLex_lt_toLex]
  refine .inr ⟨length, ?_⟩
  by_cases alive : ∀ pc < after.length, Reachable after pc
  · have aliveBefore : ∀ pc < insns.length, Reachable insns pc := fun pc bound =>
      inPlace.flows 0 pc (alive pc (length ▸ bound))
    simp only [allAlive, if_pos alive, if_pos aliveBefore, lt_self_iff_false, false_or, true_and]
    exact lighter
  · by_cases aliveBefore : ∀ pc < insns.length, Reachable insns pc
    · simp only [allAlive, if_neg alive, if_pos aliveBefore]
      exact .inl Nat.zero_lt_one
    · simp only [allAlive, if_neg alive, if_neg aliveBefore, lt_self_iff_false, false_or, true_and]
      exact lighter

variable {given : Prop}

theorem Improves.of_rewritten (rewritten : Rewritten insns after) : Improves given insns after :=
  ⟨rewritten.wellFormed, fun _ => .of_tree (rewritten.tree 0), rewritten.length.le⟩

/-- What one run of a pass gives: the same program, and then `quiet` holds, or a better one. -/
def Runs (given : Prop) (pass : List Instruction → PassResult) (insns : List Instruction)
    (quiet : Prop) : Prop :=
  ∃ after changed, pass insns = some (after, changed) ∧
    (changed = false → after = insns ∧ quiet) ∧
    (changed = true → Improves given insns after ∧ size after < size insns)

theorem runs_sweep {rewrite : Rewrite} (sound : SoundRewrite rewrite)
    (wellFormed : WellFormed insns) : Runs given (sweep rewrite) insns True := by
  obtain ⟨after, changed, done, inPlace⟩ := sweep_sound sound wellFormed
  refine ⟨after, changed, done, fun same => ⟨inPlace.unchanged same, trivial⟩, ?_⟩
  rintro rfl
  exact ⟨.of_rewritten inPlace.rewritten, size_lt_of_inPlace inPlace⟩

variable {pass : List Instruction → PassResult}

theorem runs_removal {quiet needed : Prop} (holds : given → needed)
    (removal : ∃ after changed, pass insns = some (after, changed) ∧
      (changed = false → after = insns ∧ quiet) ∧
      (changed = true → Improves needed insns after ∧ after.length < insns.length)) :
    Runs given pass insns quiet := by
  obtain ⟨after, changed, done, unchanged, improved⟩ := removal
  refine ⟨after, changed, done, unchanged, fun isChanged => ?_⟩
  obtain ⟨⟨wellFormed, meaning, length⟩, shorter⟩ := improved isChanged
  exact ⟨⟨wellFormed, fun isGiven => meaning (holds isGiven), length⟩, size_lt_of_length shorter⟩

def Round (given : Prop) (passes : List (List Instruction → PassResult)) (insns : List Instruction) : Prop :=
  ∃ result, firstChange passes insns = some result ∧
    ∀ after, result = some after → Improves given insns after ∧ size after < size insns

theorem round_cons {passes : List (List Instruction → PassResult)} (quiet : Prop)
    (runs : Runs given pass insns quiet)
    (rest : pass insns = some (insns, false) → quiet → Round given passes insns) :
    Round given (pass :: passes) insns := by
  obtain ⟨after, changed, done, unchanged, improved⟩ := runs
  cases changed with
  | true =>
    refine ⟨some after, ?_, ?_⟩
    · simp only [firstChange, done, bind_eq_bind, bind_some, ↓reduceIte]
    · intro other same
      exact Option.some.inj same ▸ improved rfl
  | false =>
    obtain ⟨rfl, isQuiet⟩ := unchanged rfl
    obtain ⟨result, found, spec⟩ := rest done isQuiet
    refine ⟨result, ?_, spec⟩
    simp only [firstChange, done, bind_eq_bind, bind_some, Bool.false_eq_true, ↓reduceIte, found]

def passesBeforeLoads : List (List Instruction → PassResult) :=
  [optimizeConditionalJumps, optimizeSameTargetConditionalJumps, optimizeUnconditionalJumps,
    optimizeJumpsToReturn, removeZeroInstructionJumps, removeDeadCode]

/-- A round that comes to `removeRedundantLoads` removes no stale load. -/
def RemovesFresh (insns : List Instruction) : Prop :=
  firstChange passesBeforeLoads insns = some none → staleLoads insns = []

theorem round_optimizerFuncs (visits : ∀ insns groups, (order insns groups).Perm groups)
    (wellFormed : WellFormed insns) : Round (RemovesFresh insns) (optimizerFuncs order) insns := by
  refine round_cons _ (runs_sweep threadConditionalJump_sound wellFormed) fun idle₁ _ => ?_
  refine round_cons _ (runs_sweep mergeSameTarget_sound wellFormed) fun idle₂ _ => ?_
  refine round_cons _ (runs_sweep threadUnconditionalJump_sound wellFormed) fun idle₃ _ => ?_
  refine round_cons _ (runs_sweep copyReturn_sound wellFormed) fun idle₄ _ => ?_
  refine round_cons True (runs_removal (fun _ => trivial) ?_) fun idle₅ _ => ?_
  · simpa using removeZeroInstructionJumps_sound wellFormed
  refine round_cons _ (runs_removal (fun _ => trivial) (removeDeadCode_sound wellFormed))
    fun idle₆ alive => ?_
  have comes : firstChange passesBeforeLoads insns = some none := by
    simp [passesBeforeLoads, firstChange, idle₁, idle₂, idle₃, idle₄, idle₅, idle₆]
  refine round_cons True (runs_removal (fun fresh => fresh comes) ?_) fun _ _ => ?_
  · simpa using removeRedundantLoads_sound wellFormed
  refine round_cons True ?_ fun _ _ => ⟨none, rfl, nofun⟩
  obtain ⟨after, changed, done, unchanged, improved⟩ :=
    optimizeJumpsToSmallestSetOfReturns_sound visits wellFormed
  refine ⟨after, changed, done, fun same => ⟨unchanged same, trivial⟩, fun isChanged => ?_⟩
  obtain ⟨rewritten, dead⟩ := improved isChanged
  exact ⟨.of_rewritten rewritten, size_lt_of_dead rewritten.length alive dead⟩

/-- The programs that the rounds of the optimizer come to. -/
def Rounds (order : MapOrder) : List Instruction → List Instruction → Prop :=
  Relation.ReflTransGen fun insns after => firstChange (optimizerFuncs order) insns = some (some after)

/-- No round removes a stale load. -/
def LoadsFresh (order : MapOrder) (insns : List Instruction) : Prop :=
  ∀ later, Rounds order insns later → RemovesFresh later

/-- The optimizer stops, with a well-formed program that is not longer and means the same if its
rounds remove no stale load. -/
theorem optimizeWithin_stops (visits : ∀ insns groups, (order insns groups).Perm groups)
    (wellFormed : WellFormed insns) :
    ∃ rounds after, Improves (LoadsFresh order insns) insns after ∧
      ∀ more ≥ rounds, optimizeWithin (optimizerFuncs order) more insns = some after := by
  induction insns using (InvImage.wf size wellFounded_lt).induction with
  | _ insns ih =>
    obtain ⟨result, round, spec⟩ := round_optimizerFuncs visits wellFormed
    cases result with
    | none =>
      refine ⟨1, insns, ⟨wellFormed, fun _ => .of_tree rfl, le_rfl⟩, fun more enough => ?_⟩
      obtain ⟨more, rfl⟩ : ∃ fewer, more = fewer + 1 := ⟨more - 1, by omega⟩
      simp only [optimizeWithin, round, bind_eq_bind, bind_some]
    | some next =>
      obtain ⟨improves, smaller⟩ := spec next rfl
      obtain ⟨rounds, after, later, stops⟩ := ih next smaller improves.wellFormed
      refine ⟨rounds + 1, after, ⟨later.wellFormed, fun fresh endian input => ?_,
        later.length.trans improves.length⟩, fun more enough => ?_⟩
      · have freshLater : LoadsFresh order next := fun other reached => fresh other (.head round reached)
        exact (later.meaning freshLater endian input).trans (improves.meaning (fresh insns .refl) endian input)
      · obtain ⟨more, rfl⟩ : ∃ fewer, more = fewer + 1 := ⟨more - 1, by omega⟩
        simp only [optimizeWithin, round, bind_eq_bind, bind_some]
        exact stops more (by omega)

/-- The iteration stops, with a program that is no longer and that `compile` accepts. -/
theorem optimize_terminates (visits : ∀ insns groups, (order insns groups).Perm groups)
    (accepted : check insns = .ok ()) :
    ∃ rounds after,
      (∀ more ≥ rounds, optimizeWithin (optimizerFuncs order) more insns = some after) ∧
      after.length ≤ insns.length ∧ check after = .ok () := by
  obtain ⟨counted, wellFormed⟩ := check_ok.mp accepted
  obtain ⟨rounds, after, improves, stops⟩ := optimizeWithin_stops visits wellFormed
  refine ⟨rounds, after, stops, improves.length, ?_⟩
  exact check_ok.mpr ⟨improves.length.trans counted, improves.wellFormed⟩

/-- A jump to a jump, a jump to a return, dead code after that, and a repeated load: one pass after
the other changes this program. -/
def jumpsAndLoads : List Instruction :=
  [stmt (Op.code (.ldAbs .w)) 4, jump (Op.code (.jump .jeq .k)) 7 1 0, stmt (Op.code .ja) 1,
    stmt (Op.code .ja) 1, stmt (Op.code .retK) 3, stmt (Op.code (.ldAbs .w)) 4, stmt (Op.code .retA) 0]

theorem optimize_terminates_jumpsAndLoads :
    optimizeWithin (optimizerFuncs fun _ groups => groups) 5 jumpsAndLoads =
      some [stmt (Op.code (.ldAbs .w)) 4, jump (Op.code (.jump .jeq .k)) 7 1 0,
        stmt (Op.code .retK) 3, stmt (Op.code .retA) 0] ∧
    ∃ rounds after,
      (∀ more ≥ rounds, optimizeWithin (optimizerFuncs fun _ groups => groups) more
        jumpsAndLoads = some after) ∧
      after.length ≤ 7 ∧ check after = .ok () :=
  ⟨by decide, optimize_terminates (fun _ _ => .refl _) (by decide)⟩

theorem compile_unoptimized {rounds : Nat} {program : Program}
    (compiled : compile order rounds insns false = some (.ok program)) :
    check insns = .ok () ∧ program = ⟨insns⟩ := by
  rw [compile] at compiled
  split at compiled
  · cases compiled
  · rename_i accepted
    simp only [Bool.false_eq_true, ↓reduceIte, some.injEq, Except.ok.injEq] at compiled
    exact ⟨accepted, compiled.symm⟩

/-- The optimizer preserves the meaning of every program from whose rounds no load is removed that
one chain of predecessors leads to from an equal load, with a change of its operand on the way. -/
theorem compile_optimized_exec (visits : ∀ insns groups, (order insns groups).Perm groups)
    {rounds : Nat} {program : Program}
    (compiled : compile order rounds insns false = some (.ok program)) (fresh : LoadsFresh order insns) :
    ∃ optimized enough, (∀ rounds ≥ enough, compile order rounds insns true = some (.ok optimized)) ∧
      ∀ endian input,
        outcome (exec endian optimized input) = outcome (exec endian program input) := by
  obtain ⟨accepted, rfl⟩ := compile_unoptimized compiled
  obtain ⟨_, wellFormed⟩ := check_ok.mp accepted
  obtain ⟨enough, after, improves, stops⟩ := optimizeWithin_stops visits wellFormed
  refine ⟨⟨after⟩, enough, fun rounds more => ?_, fun endian input => ?_⟩
  · simp only [compile, accepted, ↓reduceIte, stops rounds more, map_some]
  · rw [exec_codeTree improves.wellFormed, exec_codeTree wellFormed]
    exact improves.meaning fresh endian input

/-- The second load is fresh and is removed. Both ways to the third change X, but it has two
predecessors, where the walk gives up, and stays. -/
def branchingLoads : List Instruction :=
  [stmt (Op.code .ldxImm) 0, stmt (Op.code (.ldInd .b)) 0, stmt (Op.code (.ldInd .b)) 0,
    jump (Op.code (.jump .jeq .k)) 5 0 2, stmt (Op.code .ldxImm) 1, stmt (Op.code .ja) 1,
    stmt (Op.code .ldxImm) 2, stmt (Op.code (.ldInd .b)) 0, stmt (Op.code .retA) 0]

theorem branchingLoads_optimized_exec :
    optimizeWithin (optimizerFuncs fun _ groups => groups) 2 branchingLoads =
      some (branchingLoads.eraseIdx 2) ∧
    ∃ optimized enough,
      (∀ rounds ≥ enough, compile (fun _ groups => groups) rounds branchingLoads true =
        some (.ok optimized)) ∧
      ∀ endian input, outcome (exec endian optimized input) =
        outcome (exec endian ⟨branchingLoads⟩ input) := by
  refine ⟨by decide, compile_optimized_exec (fun _ _ => .refl _)
    (show compile _ 0 _ false = some (.ok ⟨branchingLoads⟩) by decide) fun later reached _ => ?_⟩
  rcases reached.cases_head with rfl | ⟨next, round, reached⟩
  · decide
  have shorter : firstChange (optimizerFuncs fun _ groups => groups) branchingLoads =
      some (some (branchingLoads.eraseIdx 2)) := by decide
  rw [shorter] at round
  cases round
  rcases reached.cases_head with rfl | ⟨next, round, -⟩
  · decide
  have final : firstChange (optimizerFuncs fun _ groups => groups) (branchingLoads.eraseIdx 2) =
      some none := by decide
  rw [final] at round
  cases round

/-- A load through X is removed although X has changed since the equal load before it. -/
def staleLoad : List Instruction :=
  [stmt (Op.code .ldxImm) 0, stmt (Op.code (.ldInd .b)) 0, stmt (Op.code .ldxImm) 1,
    stmt (Op.code (.ldInd .b)) 0, stmt (Op.code .retA) 0]

theorem staleLoad_optimized_differs :
    compile (fun _ groups => groups) 10 staleLoad false = some (.ok ⟨staleLoad⟩) ∧
      compile (fun _ groups => groups) 10 staleLoad true = some (.ok ⟨staleLoad.eraseIdx 3⟩) ∧
      exec .big ⟨staleLoad⟩ [7, 9] = .ok 9 ∧
      exec .big ⟨staleLoad.eraseIdx 3⟩ [7, 9] = .ok 7 := by
  decide

end BVisor.Bpf
