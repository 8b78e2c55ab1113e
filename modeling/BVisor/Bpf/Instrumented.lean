import BVisor.Bpf.Machine

/-! `InstrumentedExec`: the interpreter that also records which instructions it has executed and
which bytes of the input it has read. -/

namespace BVisor.Bpf

open List

structure ExecutionMetrics where
  returnValue : BitVec 32
  coverage : List Bool
  inputAccessed : List Bool
deriving DecidableEq

/-- `none` is the panic on a range that is not inside the input. -/
def ExecutionMetrics.markInputRead (metrics : ExecutionMetrics) (offset : BitVec 32)
    (bytesRead : Nat) : Option ExecutionMetrics :=
  if offset.toNat + bytesRead > metrics.inputAccessed.length then none
  else
    some { metrics with
      inputAccessed := (List.range bytesRead).foldl
        (fun accessed i => accessed.set (offset.toNat + i) true) metrics.inputAccessed }

def recordLoad (endian : Endianness) (input : Input) (size : Size) (offset : BitVec 32)
    (metrics : ExecutionMetrics) (write : BitVec 32 → Machine) :
    Option (Effect × ExecutionMetrics) :=
  match load endian input size offset with
  | none => some (.fail .invalidLoad, metrics)
  | some value =>
    match metrics.markInputRead offset size.bytes with
    | none => none
    | some marked => some (.next 0 (write value), marked)

def Op.instrumentedStep (op : Op) (endian : Endianness) (input : Input) (ins : Instruction)
    (machine : Machine) (metrics : ExecutionMetrics) : Option (Effect × ExecutionMetrics) :=
  match op with
  | .ldImm => some (.next 0 { machine with a := ins.k }, metrics)
  | .ldAbs size =>
    recordLoad endian input size ins.k metrics fun value => { machine with a := value }
  | .ldInd size =>
    recordLoad endian input size (machine.x + ins.k) metrics fun value =>
      { machine with a := value }
  | .ldMem => some (.next 0 { machine with a := machine.m ins.k.toNat }, metrics)
  | .ldLen => some (.next 0 { machine with a := BitVec.ofNat 32 input.length }, metrics)
  | .ldxImm => some (.next 0 { machine with x := ins.k }, metrics)
  | .ldxMem => some (.next 0 { machine with x := machine.m ins.k.toNat }, metrics)
  | .ldxLen => some (.next 0 { machine with x := BitVec.ofNat 32 input.length }, metrics)
  | .ldxMsh =>
    recordLoad endian input .b ins.k metrics fun value =>
      { machine with x := 4 * (value &&& 0xf) }
  | .st => some (.next 0 (machine.store ins.k.toNat machine.a), metrics)
  | .stx => some (.next 0 (machine.store ins.k.toNat machine.x), metrics)
  | .alu op source =>
    match op.apply machine.a (source.value ins machine) with
    | none => some (.fail .divisionByZero, metrics)
    | some value => some (.next 0 { machine with a := value }, metrics)
  | .neg => some (.next 0 { machine with a := -machine.a }, metrics)
  | .ja => some (.next ins.k.toNat machine, metrics)
  | .jump comparison source =>
    some (.next (conditionalJumpOffset ins
      (comparison.holds machine.a (source.value ins machine))) machine, metrics)
  | .retK => some (.done ins.k, { metrics with returnValue := ins.k })
  | .retA => some (.done machine.a, { metrics with returnValue := machine.a })
  | .tax => some (.next 0 { machine with a := machine.x }, metrics)
  | .txa => some (.next 0 { machine with x := machine.a }, metrics)

def instrumentedStep (endian : Endianness) (input : Input) (ins : Instruction)
    (machine : Machine) (metrics : ExecutionMetrics) : Option (Effect × ExecutionMetrics) :=
  match ins.op? with
  | none => some (.fail .invalidOpcode, metrics)
  | some op => op.instrumentedStep endian input ins machine metrics

def ExecutionMetrics.cover (metrics : ExecutionMetrics) (pc : Nat) : ExecutionMetrics :=
  { metrics with coverage := metrics.coverage.set pc true }

def instrumentedLoop (endian : Endianness) (input : Input) (instructions : List Instruction) :
    Nat → Machine → ExecutionMetrics → Nat → Option (ExecutionMetrics × Option Error)
  | 0, _, metrics, pc => some (metrics, some { code := .invalidEndOfProgram, pc })
  | count + 1, machine, metrics, pc =>
    match instructions[pc]? with
    | none => some (metrics, some { code := .invalidEndOfProgram, pc })
    | some ins =>
      match instrumentedStep endian input ins machine (metrics.cover pc) with
      | none => none
      | some (.next skip after, marked) =>
        instrumentedLoop endian input instructions count after marked (pc + skip + 1)
      | some (.done _, marked) => some (marked, none)
      | some (.fail code, marked) => some (marked, some { code, pc })

def instrumentedExec (endian : Endianness) (program : Program) (input : Input) :
    Option (ExecutionMetrics × Option Error) :=
  instrumentedLoop endian input program.instructions program.instructions.length .initial
    { returnValue := 0
      coverage := List.replicate program.instructions.length false
      inputAccessed := List.replicate input.length false } 0

/-- `other` cannot be told from `input` by looking at the accessed bytes. -/
structure Agree (accessed : List Bool) (input other : Input) : Prop where
  length : other.length = input.length
  bytes : ∀ offset : Nat, accessed[offset]? = some true → other[offset]? = input[offset]?

structure Recorded (input : Input) (before after : ExecutionMetrics) : Prop where
  length : after.inputAccessed.length = input.length
  kept : ∀ offset : Nat, before.inputAccessed[offset]? = some true → after.inputAccessed[offset]? = some true

variable {endian : Endianness} {input other : Input} {ins : Instruction} {machine : Machine}
  {metrics marked after : ExecutionMetrics}

theorem Recorded.refl (length : metrics.inputAccessed.length = input.length) : Recorded input metrics metrics :=
  ⟨length, fun _ accessed => accessed⟩

theorem Recorded.trans (first : Recorded input metrics marked)
    (second : Recorded input marked after) : Recorded input metrics after :=
  ⟨second.length, fun offset accessed => second.kept offset (first.kept offset accessed)⟩

theorem Agree.earlier (recorded : Recorded input metrics marked)
    (agree : Agree marked.inputAccessed input other) : Agree metrics.inputAccessed input other :=
  ⟨agree.length, fun offset accessed => agree.bytes offset (recorded.kept offset accessed)⟩

theorem markRange_length (accessed : List Bool) (start count : Nat) :
    ((range count).foldl (fun accessed i => accessed.set (start + i) true) accessed).length =
      accessed.length := by
  induction count with
  | zero => rfl
  | succ count ih =>
    rw [range_succ, foldl_append, foldl_cons, foldl_nil, length_set, ih]

theorem markRange_getElem? (accessed : List Bool) (start count offset : Nat) (bound : offset < accessed.length) :
    ((range count).foldl (fun accessed i => accessed.set (start + i) true)
      accessed)[offset]? = some true ↔
      accessed[offset]? = some true ∨ (start ≤ offset ∧ offset < start + count) := by
  induction count with
  | zero =>
    have outside : ¬ (start ≤ offset ∧ offset < start + 0) := by omega
    simp only [range_zero, foldl_nil, outside, or_false]
  | succ count ih =>
    rw [range_succ, foldl_append, foldl_cons, foldl_nil, getElem?_set, markRange_length]
    by_cases here : start + count = offset
    · have inside : start ≤ offset ∧ offset < start + (count + 1) := by omega
      simp only [here, bound, ↓reduceIte, inside, and_self, or_true]
    rw [if_neg here, ih]
    have same : (start ≤ offset ∧ offset < start + count) ↔
        (start ≤ offset ∧ offset < start + (count + 1)) := by omega
    rw [same]

variable {offset : BitVec 32} {size : Size}

theorem load_some {value : BitVec 32} (loaded : load endian input size offset = some value) :
    offset.toNat + size.bytes ≤ input.length := by
  unfold load at loaded
  split at loaded
  · cases loaded
  · omega

theorem markInputRead_spec (bytesRead : Nat) (length : metrics.inputAccessed.length = input.length)
    (bound : offset.toNat + bytesRead ≤ input.length) :
    ∃ marked, metrics.markInputRead offset bytesRead = some marked ∧
      Recorded input metrics marked ∧
      ∀ place, offset.toNat ≤ place → place < offset.toNat + bytesRead →
        marked.inputAccessed[place]? = some true := by
  refine ⟨_, by rw [ExecutionMetrics.markInputRead, if_neg (by omega)], ⟨?_, ?_⟩, ?_⟩
  · rw [markRange_length, length]
  · intro place accessed
    have inside := (List.getElem?_eq_some_iff.mp accessed).1
    exact (markRange_getElem? _ _ _ _ inside).mpr (.inl accessed)
  · intro place lower upper
    exact (markRange_getElem? _ _ _ _ (by omega)).mpr (.inr ⟨lower, upper⟩)

theorem load_congr (length : other.length = input.length)
    (bytes : ∀ place, offset.toNat ≤ place → place < offset.toNat + size.bytes →
      other[place]? = input[place]?) :
    load endian other size offset = load endian input size offset := by
  have same : (other.drop offset.toNat).take size.bytes =
      (input.drop offset.toNat).take size.bytes := by
    refine ext_getElem? fun i => ?_
    by_cases inside : i < size.bytes
    · rw [getElem?_take_of_lt inside, getElem?_take_of_lt inside, getElem?_drop,
        getElem?_drop]
      exact bytes _ (by omega) (by omega)
    · rw [getElem?_take_eq_none (by omega), getElem?_take_eq_none (by omega)]
  simp only [load, length, same]

theorem load_none (length : other.length = input.length)
    (failed : load endian input size offset = none) : load endian other size offset = none := by
  unfold load at failed ⊢
  rw [length]
  split at failed
  · rename_i outside
    exact if_pos outside
  · cases failed

theorem recordLoad_spec {write : BitVec 32 → Machine} (length : metrics.inputAccessed.length = input.length) :
    ∃ marked, recordLoad endian input size offset metrics write =
        some (.ofLoad (load endian input size offset) write, marked) ∧
      Recorded input metrics marked ∧
      (∀ value, Effect.ofLoad (load endian input size offset) write = .done value →
        marked.returnValue = value) ∧
      ∀ other, Agree marked.inputAccessed input other →
        Effect.ofLoad (load endian other size offset) write =
          .ofLoad (load endian input size offset) write := by
  cases loaded : load endian input size offset with
  | none =>
    refine ⟨metrics, by simp only [recordLoad, loaded, Effect.ofLoad], .refl length, nofun, ?_⟩
    intro other agree
    rw [load_none agree.length loaded]
  | some value =>
    obtain ⟨marked, done, recorded, inside⟩ := markInputRead_spec size.bytes length (load_some loaded)
    refine ⟨marked, by simp only [recordLoad, loaded, done, Effect.ofLoad], recorded, nofun, ?_⟩
    intro other agree
    have same : load endian other size offset = load endian input size offset :=
      load_congr agree.length fun place lower upper =>
        agree.bytes place (inside place lower upper)
    rw [same, loaded]

/-- One iteration has the effect of an iteration of `Exec`, and no input that agrees on the bytes
recorded so far makes it go differently. -/
theorem instrumentedStep_spec (length : metrics.inputAccessed.length = input.length) :
    ∃ marked, instrumentedStep endian input ins machine metrics =
        some (step endian input ins machine, marked) ∧
      Recorded input metrics marked ∧
      (∀ value, step endian input ins machine = .done value → marked.returnValue = value) ∧
      ∀ other, Agree marked.inputAccessed input other →
        step endian other ins machine = step endian input ins machine := by
  cases decoded : ins.op? with
  | none =>
    simp only [instrumentedStep, step, decoded]
    exact ⟨metrics, rfl, .refl length, fun _ done => (by cases done), fun _ _ => trivial⟩
  | some op =>
    simp only [instrumentedStep, step, decoded]
    cases op with
    | ldAbs size | ldInd size | ldxMsh => exact recordLoad_spec length
    | ldLen | ldxLen =>
      refine ⟨metrics, rfl, .refl length, fun _ done => (by cases done), fun other agree => ?_⟩
      simp only [Op.step, agree.length]
    | alu op source =>
      simp only [Op.instrumentedStep, Op.step]
      cases op.apply machine.a (source.value ins machine) with
      | none | some value => exact ⟨metrics, rfl, .refl length, fun _ done => (by cases done), fun _ _ => trivial⟩
    | retK | retA =>
      exact ⟨_, rfl, ⟨length, fun _ accessed => accessed⟩, fun _ same => Effect.done.inj same, fun _ _ => rfl⟩
    | ldImm | ldMem | ldxImm | ldxMem | st | stx | neg | ja | jump comparison source | tax
    | txa =>
      exact ⟨metrics, rfl, .refl length, fun _ done => (by cases done), fun _ _ => rfl⟩

/-- How `Exec` reports what `InstrumentedExec` returns. -/
def resultOf : ExecutionMetrics × Option Error → Except Error (BitVec 32)
  | (metrics, none) => .ok metrics.returnValue
  | (_, some error) => .error error

theorem instrumentedLoop_spec {instructions : List Instruction} {count pc : Nat}
    (length : metrics.inputAccessed.length = input.length) :
    ∃ result, instrumentedLoop endian input instructions count machine metrics pc = some result ∧
      Recorded input metrics result.1 ∧
      resultOf result = execLoop endian input instructions count machine pc ∧
      ∀ other, Agree result.1.inputAccessed input other →
        execLoop endian other instructions count machine pc = resultOf result := by
  induction count generalizing machine metrics pc with
  | zero => exact ⟨_, rfl, .refl length, rfl, fun _ _ => rfl⟩
  | succ count ih =>
    simp only [instrumentedLoop, execLoop]
    cases instructions[pc]? with
    | none => exact ⟨_, rfl, .refl length, rfl, fun _ _ => rfl⟩
    | some ins =>
      have covered : (metrics.cover pc).inputAccessed.length = input.length := length
      obtain ⟨marked, done, recorded, returned, same⟩ := @instrumentedStep_spec endian input ins machine _ covered
      have fromStart : Recorded input metrics marked := ⟨recorded.length, recorded.kept⟩
      simp only [done]
      cases stepped : step endian input ins machine with
      | next skip next =>
        obtain ⟨result, ran, later, agrees, noninterference⟩ := @ih next marked (pc + skip + 1) recorded.length
        refine ⟨result, ran, fromStart.trans later, agrees, fun other agree => ?_⟩
        rw [same other (agree.earlier later), stepped]
        exact noninterference other agree
      | done value =>
        have value : marked.returnValue = value := returned value stepped
        refine ⟨(marked, none), rfl, fromStart, by simp only [resultOf, value], ?_⟩
        intro other agree
        rw [same other agree, stepped]
        simp only [resultOf, value]
      | fail code =>
        refine ⟨(marked, some ⟨code, pc⟩), rfl, fromStart, rfl, fun other agree => ?_⟩
        rw [same other agree, stepped]
        rfl

/-- `InstrumentedExec` returns what `Exec` returns, on its own input and on every input of the same
length that agrees with it on the bytes that were accessed. -/
theorem instrumentedExec_spec (endian : Endianness) (program : Program) (input : Input) :
    ∃ result, instrumentedExec endian program input = some result ∧
      result.1.inputAccessed.length = input.length ∧
      resultOf result = exec endian program input ∧
      ∀ other, Agree result.1.inputAccessed input other →
        exec endian program other = resultOf result := by
  obtain ⟨result, ran, recorded, agrees, noninterference⟩ :=
    @instrumentedLoop_spec endian input .initial
      { returnValue := 0
        coverage := replicate program.instructions.length false
        inputAccessed := replicate input.length false }
      program.instructions program.instructions.length 0 length_replicate
  exact ⟨result, ran, recorded.length, agrees, noninterference⟩

end BVisor.Bpf
