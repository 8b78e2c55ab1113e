import BVisor.Ingress.Relay

/-! What holds of one connection in every reachable state: the frames emitted for it so far, the
lock its goroutines hold, and what a step of a goroutine does to them. -/

namespace BVisor.Ingress

open WorkerPhase

inductive Stage where
  | fresh | serving | leaving | removed | done | turnedAway
deriving DecidableEq

def WorkerPhase.stage : WorkerPhase → Stage
  | .dialing | .dialFailed | .connected | .reporting _ | .writingResult _ => .fresh
  | .serving | .handling _ | .halfClosing | .stopping | .stoppingGuest | .joining => .serving
  | .closing | .closingGuest | .retiring | .deleting => .leaving
  | .checkingClose | .writingClose => .removed
  | .done => .done
  | .turnedAway => .turnedAway

def WorkerPhase.locked : WorkerPhase → Bool
  | .writingResult _ | .deleting | .checkingClose | .writingClose => true
  | _ => false

def ReaderPhase.locked : ReaderPhase → Bool
  | .writingData _ _ | .writingCloseWrite => true
  | _ => false

def Talking (word : List Out) : Prop :=
  ∃ payloads : List (List Byte), word = .dialResult true :: payloads.map .data

def HalfClosed (word : List Out) : Prop :=
  ∃ talk, Talking talk ∧ word = talk ++ [.closeWrite]

def Unclosed (word : List Out) : Prop :=
  word = [] ∨ word = [.dialResult false] ∨ Talking word ∨ HalfClosed word

section

variable (ctxDone : Bool) (session : Session)

/-- Nothing has been said, and only the host or a shutdown may have cancelled the connection. -/
def Session.Fresh : Prop :=
  session.word = [] ∧ session.reader = .absent ∧
    (session.cancelled = true → session.closing = true ∨ ctxDone = true)

def Session.Serving : Prop :=
  session.reader ≠ .absent ∧
    (Talking session.word ∨ HalfClosed session.word ∧ session.reader = .finished)

/-- No reader is left, and CLOSE has not been said. -/
def Session.Leaving : Prop :=
  (session.reader = .absent ∨ session.reader = .finished) ∧ Unclosed session.word ∧
    (session.word = [] → session.closing = true ∨ ctxDone = true)

def Session.Left : Prop :=
  session.Leaving ctxDone ∧ ctxDone = true ∨
    (session.reader = .absent ∨ session.reader = .finished) ∧
    ∃ talk, Unclosed talk ∧ session.word = talk ++ [.close] ∧
      (talk = [] → session.closing = true ∨ ctxDone = true)

def Session.TurnedAway : Prop :=
  session.reader = .absent ∧ (session.word = [] ∨ session.word = [.dialResult false])

def Session.Shape : Prop :=
  match session.worker.stage with
  | .fresh => session.live = true ∧ session.Fresh ctxDone
  | .serving => session.live = true ∧ session.Serving
  | .leaving => session.live = true ∧ session.Leaving ctxDone
  | .removed => session.live = false ∧ session.Leaving ctxDone
  | .done => session.live = false ∧ session.Left ctxDone
  | .turnedAway => session.live = false ∧ session.TurnedAway

end

structure Session.OK (index : Nat) (shared : Shared) (session : Session) : Prop where
  shape : session.Shape shared.ctxDone
  workerLocked : session.worker.locked = true → shared.writeMu = some (.worker index)
  readerLocked : session.reader.locked = true → shared.writeMu = some (.reader index)

/-- What a step of a goroutine that acts for the connection at `index` does, as far as the other
connections are concerned. `own` is the goroutine. -/
structure Effect (own : Holder) (index : Nat) (session : Session) (shared : Shared)
    (session' : Session) (shared' : Shared) : Prop where
  id : session'.id = session.id
  live : session'.live = true → session.live = true
  closing : session.closing = true → session'.closing = true
  done : session.worker = .done → session'.worker = .done
  ctxDone : shared.ctxDone = true → shared'.ctxDone = true
  writeMu : shared'.writeMu = shared.writeMu ∨ shared.writeMu = none ∨ shared.writeMu = some own
  frames :
    (session'.word = session.word ∧ shared'.log = shared.log) ∨
    ∃ frame, session'.word = session.word ++ [frame] ∧
      shared'.log = shared.log ++ [.emitted index frame] ∧
      shared.writeMu = some own ∧ session.worker ≠ .done ∧ Out.close ∉ session.word ∧
      (session.live = false → frame = .close ∨ session.worker = .turnedAway)

variable {ctxDone : Bool} {index : Nat} {session session' : Session} {shared shared' : Shared}
  {word : List Out}

theorem Talking.data (talking : Talking word) (payload : List Byte) : Talking (word ++ [.data payload]) := by
  obtain ⟨payloads, rfl⟩ := talking
  exact ⟨payloads ++ [payload], by simp⟩

theorem Talking.no_close (talking : Talking word) : Out.close ∉ word := by
  obtain ⟨payloads, rfl⟩ := talking
  simp

theorem Unclosed.no_close (unclosed : Unclosed word) : Out.close ∉ word := by
  rcases unclosed with rfl | rfl | talking | ⟨talk, talking, rfl⟩
  · simp
  · simp
  · exact talking.no_close
  · simpa using talking.no_close

theorem Session.Serving.nonempty (serving : session.Serving) : session.word ≠ [] := by
  rcases serving.2 with ⟨payloads, said⟩ | ⟨⟨talk, _, said⟩, _⟩
  · simp [said]
  · simp [said]

theorem Session.Serving.unclosed (serving : session.Serving) : Unclosed session.word := by
  rcases serving.2 with talking | half
  · exact .inr (.inr (.inl talking))
  · exact .inr (.inr (.inr half.1))

variable {own : Holder}

open Shared

theorem Shared.lock_cases {locked : Bool} (stepped : shared.lock own = some (shared', locked)) :
    shared.writeMu = none ∧
      (locked = true ∧ shared' = { shared with writeMu := some own } ∨
        locked = false ∧ shared' = shared ∧ shared.ctxDone = true) := by
  unfold lock at stepped
  split at stepped
  · cases stepped
  rename_i free
  split at stepped <;> cases stepped
  · rename_i done
    exact ⟨by simpa using free, .inr ⟨rfl, rfl, done⟩⟩
  · exact ⟨by simpa using free, .inl ⟨rfl, rfl⟩⟩

theorem Shared.lock_log {locked : Bool} (stepped : shared.lock own = some (shared', locked)) :
    shared'.log = shared.log := by
  rcases (lock_cases stepped).2 with ⟨_, rfl⟩ | ⟨_, rfl, _⟩ <;> rfl

variable {succeeds : Bool} {frame : Out}

theorem Shared.write_cases (stepped : shared.write index frame succeeds = some shared') :
    shared'.writeMu = none ∧
      (succeeds = true ∧ shared'.ctxDone = shared.ctxDone ∧
          shared'.log = shared.log ++ [.emitted index frame] ∨
        succeeds = false ∧ shared'.ctxDone = true ∧ shared'.log = shared.log) := by
  unfold write at stepped
  split at stepped
  · cases stepped
    simp_all
  · split at stepped <;> cases stepped
    simp_all

theorem Effect.quiet {writeMu : Option Holder} (id : session'.id = session.id)
    (live : session'.live = true → session.live = true)
    (closing : session.closing = true → session'.closing = true)
    (done : session.worker = .done → session'.worker = .done) (word : session'.word = session.word)
    (lock : writeMu = shared.writeMu ∨ shared.writeMu = none ∨ shared.writeMu = some own) :
    Effect own index session shared session' { shared with writeMu } :=
  { id, live, closing, done
    ctxDone := fun held => held
    writeMu := lock
    frames := .inl ⟨word, rfl⟩ }

theorem Effect.written (stepped : shared.write index frame succeeds = some shared')
    (held : shared.writeMu = some own) (id : session'.id = session.id)
    (live : session'.live = true → session.live = true)
    (closing : session.closing = true → session'.closing = true)
    (word : session'.word = (session.emit frame succeeds).word)
    (notDone : session.worker ≠ .done) (noClose : Out.close ∉ session.word)
    (last : session.live = false → frame = .close ∨ session.worker = .turnedAway) :
    Effect own index session shared session' shared' := by
  obtain ⟨_, ⟨rfl, ctx, log⟩ | ⟨rfl, ctx, log⟩⟩ := write_cases stepped
  · exact
      { id, live, closing
        done := fun done => absurd done notDone
        ctxDone := fun done => ctx.trans done
        writeMu := .inr (.inr held)
        frames := .inr ⟨frame, word, log, held, notDone, noClose, last⟩ }
  · exact
      { id, live, closing
        done := fun done => absurd done notDone
        ctxDone := fun _ => ctx
        writeMu := .inr (.inr held)
        frames := .inl ⟨word, log⟩ }

namespace Session

/-- The shape depends on little of the connection, and survives a cancellation that the host or a
shutdown accounts for. -/
theorem Shape.mono {ctxDone' : Bool} (shape : session.Shape ctxDone)
    (stage : session'.worker.stage = session.worker.stage)
    (word : session'.word = session.word) (reader : session'.reader = session.reader)
    (live : session'.live = session.live) (closing : session.closing = true → session'.closing = true)
    (ctx : ctxDone = true → ctxDone' = true)
    (cancelled : session.worker.stage = .fresh → session'.cancelled = true →
      session.cancelled = true ∨ session'.closing = true ∨ ctxDone' = true) :
    session'.Shape ctxDone' := by
  have reasons : session.closing = true ∨ ctxDone = true →
      session'.closing = true ∨ ctxDone' = true := Or.imp closing ctx
  unfold Shape at shape ⊢
  rw [stage]
  cases found : session.worker.stage with
  | fresh =>
    simp only [found, Fresh, word, reader, live] at shape ⊢
    refine ⟨shape.1, shape.2.1, shape.2.2.1, fun now => ?_⟩
    rcases cancelled found now with before | accounted
    · exact reasons (shape.2.2.2 before)
    · exact accounted
  | serving =>
    simp only [found, Serving, word, reader, live] at shape ⊢
    exact shape
  | leaving | removed =>
    simp only [found, Leaving, word, reader, live] at shape ⊢
    exact ⟨shape.1, shape.2.1, shape.2.2.1, fun empty => reasons (shape.2.2.2 empty)⟩
  | done =>
    simp only [found, Left, Leaving, word, reader, live] at shape ⊢
    obtain ⟨notLive, ⟨⟨gone, unclosed, silent⟩, shut⟩ | ⟨gone, talk, unclosed, said, silent⟩⟩ := shape
    · exact ⟨notLive, .inl ⟨⟨gone, unclosed, fun empty => reasons (silent empty)⟩, ctx shut⟩⟩
    · exact ⟨notLive, .inr ⟨gone, talk, unclosed, said, fun empty => reasons (silent empty)⟩⟩
  | turnedAway =>
    simp only [found, TurnedAway, word, reader, live] at shape ⊢
    exact shape

theorem afterData_stage (frame : Frame) :
    (session.afterData frame).stage = .serving := by
  unfold afterData
  split <;> rfl

theorem afterData_locked (frame : Frame) :
    (session.afterData frame).locked = false := by
  unfold afterData
  split <;> rfl

end Session

/-- The steps of a worker that touch neither `writeMu` nor `conns`. -/
def WorkerStep.quiet : WorkerStep → Bool
  | .lock | .write _ | .delete | .checkClose => false
  | _ => true

variable {step : WorkerStep}

namespace Session

theorem workerStep_quiet (quiet : step.quiet = true)
    (stepped : session.workerStep index shared step = some (session', shared')) :
    shared' = shared ∧ session'.id = session.id ∧ session'.live = session.live ∧
      session'.word = session.word ∧ session'.closing = session.closing ∧
      session'.reader = session.reader ∧ session'.worker.locked = false ∧
      session.worker ≠ .done ∧
      (session'.worker.stage = session.worker.stage ∧
          (session.worker.stage = .fresh → session'.cancelled = session.cancelled) ∨
        session'.worker.stage = .leaving ∧
          (session.worker.stage = .fresh ∧ session.cancelled = true ∨
            session.worker.stage = .serving ∧ session.reader = .finished)) := by
  unfold workerStep at stepped
  split at stepped
  all_goals first | (cases stepped; done) | (cases quiet; done) | skip
  all_goals rename_i here
  all_goals repeat' split at stepped
  all_goals cases stepped
  all_goals try simp only [afterData_stage, afterData_locked]
  all_goals simp_all [stage, locked, closeGuest]

section

variable (ok : session.OK index shared)
include ok

theorem workerStep_quiet_ok (quiet : step.quiet = true)
    (stepped : session.workerStep index shared step = some (session', shared')) :
    session'.OK index shared' ∧ Effect (.worker index) index session shared session' shared' := by
  obtain ⟨rfl, id, live, word, closing, reader, unlocked, notDone, moved⟩ := workerStep_quiet quiet stepped
  have shape : session'.Shape shared'.ctxDone := by
    rcases moved with ⟨stage, cancelled⟩ | ⟨leaving, ⟨fresh, cancelled⟩ | ⟨serving, finished⟩⟩
    · exact ok.shape.mono stage word reader live (fun held => closing.trans held)
        (fun held => held) fun fresh held => .inl ((cancelled fresh).symm.trans held)
    · have shape := ok.shape
      simp only [Shape, fresh, leaving, Fresh, Leaving, word, reader, live, closing] at shape ⊢
      exact ⟨shape.1, .inl shape.2.2.1, .inl shape.2.1, fun _ => shape.2.2.2 cancelled⟩
    · have shape := ok.shape
      simp only [Shape, serving, leaving, Leaving, word, reader, live] at shape ⊢
      have said := shape.2.unclosed
      exact ⟨shape.1, .inr finished, said, fun empty => absurd empty shape.2.nonempty⟩
  exact ⟨⟨shape, fun held => by simp [unlocked] at held,
      fun held => ok.readerLocked (reader ▸ held)⟩,
    .quiet id (fun held => live ▸ held) closing.trans (fun done => absurd done notDone) word (.inl rfl)⟩

theorem workerStep_lock_ok (stepped : session.workerStep index shared .lock = some (session', shared')) :
    session'.OK index shared' ∧ Effect (.worker index) index session shared session' shared' := by
  have shape := ok.shape
  have noReader : shared.writeMu = none → session.reader.locked = true → False := by
    intro free locked
    simp [ok.readerLocked locked] at free
  cases phase : session.worker with
  | reporting result =>
    simp only [workerStep, phase] at stepped
    simp only [Shape, phase, stage] at shape
    split at stepped <;> cases stepped
    all_goals rename_i locking
    all_goals obtain ⟨free, ⟨same, rfl⟩ | ⟨same, rfl, shut⟩⟩ := lock_cases locking <;> cases same
    · refine ⟨⟨shape, fun _ => rfl, fun locked => (noReader free locked).elim⟩, ?_⟩
      exact .quiet rfl (fun held => held) (fun held => held)
        (fun done => by simp [phase] at done) rfl (.inr (.inl free))
    · refine ⟨⟨⟨shape.1, .inl shape.2.2.1, .inl shape.2.1, fun _ => .inr shut⟩, nofun, ok.readerLocked⟩, ?_⟩
      exact .quiet rfl (fun held => held) (fun held => held) (fun done => by simp [phase] at done) rfl (.inl rfl)
  | retiring =>
    simp only [workerStep, phase] at stepped
    simp only [Shape, phase, stage] at shape
    split at stepped <;> cases stepped
    rename_i free
    refine ⟨⟨shape, fun _ => rfl, fun locked => (noReader free locked).elim⟩, ?_⟩
    exact .quiet rfl (fun held => held) (fun held => held) (fun done => by simp [phase] at done) rfl
      (.inr (.inl free))
  | _ => simp [workerStep, phase] at stepped

theorem workerStep_write_ok
    (stepped : session.workerStep index shared (.write succeeds) = some (session', shared')) :
    session'.OK index shared' ∧ Effect (.worker index) index session shared session' shared' := by
  have shape := ok.shape
  have held := ok.workerLocked
  have noReader : shared.writeMu = some (.worker index) → session.reader.locked = true → False := by
    intro held locked
    simp [ok.readerLocked locked] at held
  cases phase : session.worker with
  | writingResult result =>
    simp only [workerStep, phase] at stepped
    simp only [Shape, phase, stage] at shape
    simp only [phase, locked, forall_const] at held
    obtain ⟨live, silent, absent, _⟩ := shape
    cases writing : shared.write index (.dialResult result) succeeds with
    | none => simp [writing] at stepped
    | some next =>
      have effect (session' : Session) (id : session'.id = session.id)
          (stays : session'.live = session.live) (closing : session'.closing = session.closing)
          (word : session'.word = (session.emit (.dialResult result) succeeds).word) :
          Effect (.worker index) index session shared session' next :=
        .written writing held id (fun now => stays.symm.trans now) closing.trans word
          (by simp [phase]) (by simp [silent]) (by simp [live])
      obtain ⟨_, ⟨rfl, ctx, _⟩ | ⟨rfl, ctx, _⟩⟩ := write_cases writing
      · cases result with
        | true =>
          simp only [writing, Bool.and_self, ↓reduceIte, Option.some.injEq] at stepped
          cases stepped
          refine ⟨⟨⟨live, nofun, .inl ⟨[], ?_⟩⟩, nofun, nofun⟩, effect _ rfl rfl rfl rfl⟩
          simp [emit, silent]
        | false =>
          simp only [writing, Bool.and_false, Bool.false_eq_true, ↓reduceIte] at stepped
          cases stepped
          refine ⟨⟨⟨live, .inl absent, .inr (.inl ?_), ?_⟩, nofun,
            fun locked => (noReader held locked).elim⟩, effect _ rfl rfl rfl rfl⟩
          · simp [emit, silent]
          · simp [emit, silent]
      · simp only [writing, Bool.false_and, Bool.false_eq_true, ↓reduceIte] at stepped
        cases stepped
        exact ⟨⟨⟨live, .inl absent, .inl silent, fun _ => .inr ctx⟩, nofun,
          fun locked => (noReader held locked).elim⟩, effect _ rfl rfl rfl rfl⟩
  | writingClose =>
    simp only [workerStep, phase] at stepped
    simp only [Shape, phase, stage] at shape
    simp only [phase, locked, forall_const] at held
    obtain ⟨removed, gone, unclosed, silent⟩ := shape
    cases writing : shared.write index .close succeeds with
    | none => simp [writing] at stepped
    | some next =>
      simp only [writing] at stepped
      cases stepped
      refine ⟨?_, .written writing held (by cases succeeds <;> rfl) (by cases succeeds <;> exact fun now => now)
        (by cases succeeds <;> exact fun now => now) rfl (by simp [phase]) unclosed.no_close fun _ => .inl rfl⟩
      obtain ⟨_, ⟨rfl, ctx, _⟩ | ⟨rfl, ctx, _⟩⟩ := write_cases writing
      · exact ⟨⟨removed, .inr ⟨gone, session.word, unclosed, rfl,
          fun empty => (silent empty).imp_right ctx.trans⟩⟩, nofun,
          fun locked => (noReader held locked).elim⟩
      · exact ⟨⟨removed, .inl ⟨⟨gone, unclosed, fun _ => .inr ctx⟩, ctx⟩⟩, nofun,
          fun locked => (noReader held locked).elim⟩
  | _ => simp [workerStep, phase] at stepped

theorem workerStep_delete_ok (stepped : session.workerStep index shared .delete = some (session', shared')) :
    session'.OK index shared' ∧ Effect (.worker index) index session shared session' shared' := by
  have shape := ok.shape
  cases phase : session.worker with
  | deleting =>
    simp only [Shape, phase, stage] at shape
    simp only [workerStep, phase, shape.1, ↓reduceIte] at stepped
    cases stepped
    refine ⟨⟨⟨rfl, shape.2⟩, fun _ => ok.workerLocked (by rw [phase]; rfl), ok.readerLocked⟩, ?_⟩
    exact .quiet rfl nofun (fun held => held) (fun done => by simp [phase] at done) rfl (.inl rfl)
  | _ => simp [workerStep, phase] at stepped

theorem workerStep_checkClose_ok
    (stepped : session.workerStep index shared .checkClose = some (session', shared')) :
    session'.OK index shared' ∧ Effect (.worker index) index session shared session' shared' := by
  have shape := ok.shape
  cases phase : session.worker with
  | checkingClose =>
    simp only [Shape, phase, stage] at shape
    have held := ok.workerLocked (by rw [phase]; rfl)
    simp only [workerStep, phase] at stepped
    split at stepped <;> cases stepped
    · rename_i shut
      refine ⟨⟨⟨shape.1, .inl ⟨shape.2, shut⟩⟩, nofun, fun locked => ?_⟩, ?_⟩
      · simp [ok.readerLocked locked] at held
      · exact .quiet rfl (fun held => held) (fun held => held)
          (fun done => by simp [phase] at done) rfl (.inr (.inr held))
    · refine ⟨⟨shape, fun _ => held, ok.readerLocked⟩, ?_⟩
      exact .quiet rfl (fun held => held) (fun held => held) (fun done => by simp [phase] at done) rfl (.inl rfl)
  | _ => simp [workerStep, phase] at stepped

theorem workerStep_ok (stepped : session.workerStep index shared step = some (session', shared')) :
    session'.OK index shared' ∧ Effect (.worker index) index session shared session' shared' := by
  cases step with
  | lock => exact workerStep_lock_ok ok stepped
  | write succeeds => exact workerStep_write_ok ok stepped
  | delete => exact workerStep_delete_ok ok stepped
  | checkClose => exact workerStep_checkClose_ok ok stepped
  | _ => exact workerStep_quiet_ok ok rfl stepped

end

theorem Shape.serving_of_reader (shape : session.Shape ctxDone)
    (started : session.reader ≠ .absent) (running : session.reader ≠ .finished) :
    session.worker.stage = .serving ∧ session.live = true ∧ Talking session.word := by
  unfold Shape at shape
  cases stage : session.worker.stage with
  | serving =>
    simp only [stage, Serving] at shape
    obtain ⟨live, _, talking | ⟨_, finished⟩⟩ := shape
    · exact ⟨rfl, live, talking⟩
    · exact absurd finished running
  | fresh =>
    simp only [stage] at shape
    exact absurd shape.2.2.1 started
  | leaving | removed =>
    simp only [stage] at shape
    rcases shape.2.1 with absent | finished
    · exact absurd absent started
    · exact absurd finished running
  | done =>
    simp only [stage] at shape
    rcases shape.2 with ⟨⟨absent | finished, _⟩, _⟩ | ⟨absent | finished, _⟩
    · exact absurd absent started
    · exact absurd finished running
    · exact absurd absent started
    · exact absurd finished running
  | turnedAway =>
    simp only [stage] at shape
    exact absurd shape.2.1 started

/-- What a step of the reader does to the session and to what it shares. -/
inductive ReaderMove (index : Nat) (session : Session) (shared : Shared) : Session → Shared → Prop
  | read {bytes : List Byte} {ending : ReadEnd} (phase : session.reader = .reading)
      (within : bytes.length ≤ maxDataChunk) :
    ReaderMove index session shared { session with
      readBytes := session.readBytes ++ bytes
      reader := if bytes = [] then ending.next else .sendingData bytes ending } shared
  | lockData {payload : List Byte} {ending : ReadEnd} (phase : session.reader = .sendingData payload ending)
      (free : shared.writeMu = none) :
    ReaderMove index session shared { session with reader := .writingData payload ending }
      { shared with writeMu := some (.reader index) }
  | lockCloseWrite (phase : session.reader = .sendingCloseWrite) (free : shared.writeMu = none) :
    ReaderMove index session shared { session with reader := .writingCloseWrite }
      { shared with writeMu := some (.reader index) }
  | writeData {payload : List Byte} {ending : ReadEnd} {succeeds : Bool} {shared' : Shared}
      (phase : session.reader = .writingData payload ending)
      (written : shared.write index (.data payload) succeeds = some shared') :
    ReaderMove index session shared { session.emit (.data payload) succeeds with
      reader := if succeeds then ending.next else .closing } shared'
  | writeCloseWrite {succeeds : Bool} {shared' : Shared} (phase : session.reader = .writingCloseWrite)
      (written : shared.write index .closeWrite succeeds = some shared') :
    ReaderMove index session shared { session.emit .closeWrite succeeds with
      reader := if succeeds then .finished else .closing } shared'
  | eof (phase : session.reader = .atEOF) :
    ReaderMove index session shared { session with reader := .sendingCloseWrite } shared
  | leave (started : session.reader ≠ .absent) (running : session.reader ≠ .finished) :
    ReaderMove index session shared { session with reader := .closing } shared
  | cancel (phase : session.reader = .closing) :
    ReaderMove index session shared { session with cancelled := true, reader := .closingGuest } shared
  | closeGuest (phase : session.reader = .closingGuest) :
    ReaderMove index session shared { session.closeGuest with reader := .finished } shared

variable {step : ReaderStep}

theorem readerMove_of_step
    (stepped : session.readerStep index shared step = some (session', shared')) :
    ReaderMove index session shared session' shared' := by
  unfold readerStep at stepped
  split at stepped
  next phase =>
    split at stepped <;> cases stepped
    rename_i within
    exact .read phase (Nat.le_of_not_gt (not_or.mp within).1)
  next phase =>
    have running : session.reader ≠ .absent ∧ session.reader ≠ .finished := by simp [phase]
    split at stepped <;> cases stepped
    all_goals rename_i locking
    all_goals obtain ⟨free, ⟨same, rfl⟩ | ⟨same, rfl, _⟩⟩ := lock_cases locking <;> cases same
    · exact .lockData phase free
    · exact .leave running.1 running.2
  next phase =>
    split at stepped <;> cases stepped
    rename_i written
    exact .writeData phase written
  next phase =>
    cases stepped
    split
    · exact .leave (by simp [phase]) (by simp [phase])
    · exact .eof phase
  next phase =>
    have running : session.reader ≠ .absent ∧ session.reader ≠ .finished := by simp [phase]
    split at stepped <;> cases stepped
    all_goals rename_i locking
    all_goals obtain ⟨free, ⟨same, rfl⟩ | ⟨same, rfl, _⟩⟩ := lock_cases locking <;> cases same
    · exact .lockCloseWrite phase free
    · exact .leave running.1 running.2
  next phase =>
    split at stepped <;> cases stepped
    rename_i written
    exact .writeCloseWrite phase written
  next phase =>
    cases stepped
    exact .cancel phase
  next phase =>
    cases stepped
    exact .closeGuest phase
  next => cases stepped

theorem next_runs (ending : ReadEnd) : ending.next ≠ .absent ∧ ending.next.locked = false := by
  cases ending <;> exact ⟨nofun, rfl⟩

/-- A step of the reader keeps what belongs to the worker, and it is a step of its own, the locking
of `writeMu`, or the rest of a write of DATA or of the CLOSE_WRITE that is its last frame. -/
theorem ReaderMove.acts (moved : ReaderMove index session shared session' shared') :
    (session.reader ≠ .absent ∧ session.reader ≠ .finished ∧ session'.reader ≠ .absent ∧
      session'.id = session.id ∧ session'.live = session.live ∧
      session'.closing = session.closing ∧ session'.worker = session.worker) ∧
      (shared' = shared ∧ session'.word = session.word ∧ session'.reader.locked = false ∨
        shared.writeMu = none ∧ shared' = { shared with writeMu := some (.reader index) } ∧
          session'.word = session.word ∨
        ∃ frame succeeds, session.reader.locked = true ∧
          shared.write index frame succeeds = some shared' ∧
          session'.word = (session.emit frame succeeds).word ∧ session'.reader.locked = false ∧
          ((∃ payload, frame = .data payload) ∨
            frame = .closeWrite ∧ (succeeds = true → session'.reader = .finished))) := by
  cases moved with
  | @read _ ending phase =>
    rw [phase]
    refine ⟨⟨nofun, nofun, ?_, rfl, rfl, rfl, rfl⟩, .inl ⟨rfl, rfl, ?_⟩⟩
    all_goals dsimp only; split <;> first | rfl | simp [next_runs ending]
  | lockData phase free | lockCloseWrite phase free =>
    rw [phase]
    exact ⟨⟨nofun, nofun, nofun, rfl, rfl, rfl, rfl⟩, .inr (.inl ⟨free, rfl, rfl⟩)⟩
  | @writeData _ ending succeeds _ phase written =>
    rw [phase]
    refine ⟨⟨nofun, nofun, ?_, ?_⟩, .inr (.inr ⟨_, _, rfl, written, rfl, ?_, .inl ⟨_, rfl⟩⟩)⟩ <;>
      cases succeeds <;> first | rfl | simp [next_runs ending, emit]
  | @writeCloseWrite succeeds _ phase written =>
    rw [phase]
    cases succeeds <;>
      exact ⟨⟨nofun, nofun, nofun, rfl, rfl, rfl, rfl⟩,
        .inr (.inr ⟨_, _, rfl, written, rfl, rfl, .inr ⟨rfl, by simp⟩⟩)⟩
  | leave started running =>
    exact ⟨⟨started, running, nofun, rfl, rfl, rfl, rfl⟩, .inl ⟨rfl, rfl, rfl⟩⟩
  | eof phase | cancel phase | closeGuest phase =>
    rw [phase]
    exact ⟨⟨nofun, nofun, nofun, rfl, rfl, rfl, rfl⟩, .inl ⟨rfl, rfl, rfl⟩⟩

theorem readerStep_ok (ok : session.OK index shared)
    (stepped : session.readerStep index shared step = some (session', shared')) :
    session'.OK index shared' ∧ Effect (.reader index) index session shared session' shared' := by
  obtain ⟨⟨started, running, started', id, live, closing, worker⟩, acts⟩ := (readerMove_of_step stepped).acts
  obtain ⟨stage, wasLive, talking⟩ := ok.shape.serving_of_reader started running
  have notDone : session.worker ≠ .done := by
    intro done
    simp [done, WorkerPhase.stage] at stage
  have stays : session'.live = true → session.live = true := fun _ => wasLive
  -- a serving session keeps its shape while its word stays well formed
  have shape {ctxDone : Bool} (said : Talking session'.word ∨
      HalfClosed session'.word ∧ session'.reader = .finished) : session'.Shape ctxDone := by
    simp only [Shape, worker, stage, live]
    exact ⟨wasLive, started', said⟩
  rcases acts with ⟨rfl, word, unlocked⟩ | ⟨free, rfl, word⟩ |
    ⟨frame, succeeds, locked, writing, word, unlocked, kind⟩
  · refine ⟨⟨shape (.inl (word ▸ talking)), fun held => ok.workerLocked (worker ▸ held),
      fun held => by simp [unlocked] at held⟩, ?_⟩
    exact .quiet id stays closing.trans (fun done => absurd done notDone) word (.inl rfl)
  · refine ⟨⟨shape (.inl (word ▸ talking)), fun held => ?_, fun _ => rfl⟩, ?_⟩
    · simp [ok.workerLocked (worker ▸ held)] at free
    · exact .quiet id stays closing.trans (fun done => absurd done notDone) word (.inr (.inl free))
  · have held := ok.readerLocked locked
    refine ⟨⟨shape ?_, fun holds => ?_, fun holds => by simp [unlocked] at holds⟩, ?_⟩
    · cases succeeds with
      | false => exact .inl (word ▸ talking)
      | true =>
        rcases kind with ⟨payload, rfl⟩ | ⟨rfl, last⟩
        · exact .inl (word ▸ talking.data payload)
        · exact .inr ⟨⟨session.word, talking, word⟩, last rfl⟩
    · simp [ok.workerLocked (worker ▸ holds)] at held
    · exact .written writing held id stays closing.trans word notDone talking.no_close (by simp [wasLive])

end Session

end BVisor.Ingress
