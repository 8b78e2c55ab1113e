import BVisor.Ingress.Grammar

/-! What the worker and the reader of a connection do with the bytes they carry: from the queue to
the guest, and from the guest to the host. -/

namespace BVisor.Ingress

open List

def dataOf (frames : List Frame) : List Byte :=
  frames.flatMap Frame.data

def saidData (word : List Out) : List Byte :=
  word.flatMap fun
    | .data payload => payload
    | _ => []

/-- The guest's write side was closed on the first CLOSE_WRITE among `frames`, with everything
before it written. -/
def HalfClosedAfter (frames : List Frame) (written : List Byte) : Prop :=
  ∃ before frame after, frames = before ++ frame :: after ∧ frame.closeWrite = true ∧
    (∀ earlier ∈ before, earlier.closeWrite = false) ∧ dataOf before <+: written

/-- How often the write side was closed, by whether the worker has seen CLOSE_WRITE. -/
def Session.Halves (session : Session) (seen : List Frame) : Prop :=
  (session.hostEOF = false → session.halfCloses = 0 ∧ ∀ frame ∈ seen, frame.closeWrite = false) ∧
    (session.hostEOF = true → session.halfCloses = 1 ∧
      HalfClosedAfter session.taken session.written)

def Session.Pumped (session : Session) : Prop :=
  match session.worker with
  | .dialing | .dialFailed | .connected | .reporting _ | .writingResult _ =>
    session.taken = [] ∧ session.written = [] ∧ session.hostEOF = false ∧ session.halfCloses = 0
  | .serving => session.written = dataOf session.taken ∧ session.Halves session.taken
  | .handling frame =>
    ∃ before, session.taken = before ++ [frame] ∧ session.written = dataOf before ∧
      session.Halves before
  | .halfClosing =>
    session.written = dataOf session.taken ∧ session.hostEOF = false ∧
      session.halfCloses = 0 ∧ HalfClosedAfter session.taken session.written
  | _ =>
    session.written <+: dataOf session.taken ∧
      (session.halfCloses = 0 ∨
        session.halfCloses = 1 ∧ HalfClosedAfter session.taken session.written)

def Session.Voiced (session : Session) : Prop :=
  match session.reader with
  | .reading | .atEOF | .sendingCloseWrite | .writingCloseWrite =>
    session.readBytes = saidData session.word
  | .sendingData payload _ | .writingData payload _ =>
    session.readBytes = saidData session.word ++ payload
  | .absent => session.readBytes = [] ∧ saidData session.word = []
  | .closing | .closingGuest | .finished => saidData session.word <+: session.readBytes

variable {index : Nat} {session session' : Session} {shared shared' : Shared}

@[simp] theorem dataOf_append (first second : List Frame) :
    dataOf (first ++ second) = dataOf first ++ dataOf second := by
  simp [dataOf]

@[simp] theorem dataOf_singleton (frame : Frame) : dataOf [frame] = frame.data := by
  simp [dataOf]

theorem saidData_append (word : List Out) (frame : Out) :
    saidData (word ++ [frame]) = saidData word ++ saidData [frame] := by
  simp [saidData]

theorem Session.emit_eq (frame : Out) (succeeds : Bool) : session.emit frame succeeds =
    { session with word := if succeeds then session.word ++ [frame] else session.word } := by
  cases succeeds <;> rfl

theorem HalfClosedAfter.append {frames : List Frame} {written : List Byte}
    (half : HalfClosedAfter frames written) (more : List Frame) (bytes : List Byte) :
    HalfClosedAfter (frames ++ more) (written ++ bytes) := by
  obtain ⟨before, frame, after, rfl, closes, first, done⟩ := half
  exact ⟨before, frame, after ++ more, by simp, closes, first, done.trans (prefix_append _ _)⟩

theorem Session.Halves.stop {seen : List Frame} (halves : session.Halves seen) :
    session.halfCloses = 0 ∨
      session.halfCloses = 1 ∧ HalfClosedAfter session.taken session.written := by
  cases eof : session.hostEOF with
  | false => exact .inl (halves.1 eof).1
  | true => exact .inr (halves.2 eof)

def WorkerPhase.stopped : WorkerPhase → Bool
  | .stopping | .stoppingGuest | .joining | .closing | .closingGuest | .retiring | .deleting
  | .checkingClose | .writingClose | .done | .turnedAway => true
  | _ => false

open WorkerPhase

theorem Session.pumped_of_stopped (stopped : session.worker.stopped = true) :
    session.Pumped ↔ session.written <+: dataOf session.taken ∧
      (session.halfCloses = 0 ∨
        session.halfCloses = 1 ∧ HalfClosedAfter session.taken session.written) := by
  unfold Session.Pumped
  cases phase : session.worker <;> simp_all [WorkerPhase.stopped]

theorem Session.pumped_of_fresh (fresh : session.worker.stage = .fresh) :
    session.Pumped ↔ session.taken = [] ∧ session.written = [] ∧ session.hostEOF = false ∧
      session.halfCloses = 0 := by
  unfold Session.Pumped
  cases phase : session.worker <;> simp_all [stage]

/-- In every phase the guest has received a prefix of what the worker took, and its write side was
closed at most once, on CLOSE_WRITE. -/
theorem Session.Pumped.carried (pumped : session.Pumped) :
    session.written <+: dataOf session.taken ∧
      (session.halfCloses = 0 ∨
        session.halfCloses = 1 ∧ HalfClosedAfter session.taken session.written) := by
  cases phase : session.worker with
  | serving =>
    simp only [Pumped, phase] at pumped
    exact ⟨pumped.1 ▸ prefix_rfl, pumped.2.stop⟩
  | handling frame =>
    simp only [Pumped, phase] at pumped
    obtain ⟨before, taken, written, halves⟩ := pumped
    refine ⟨?_, halves.stop⟩
    rw [written, taken, dataOf_append]
    exact prefix_append _ _
  | halfClosing =>
    simp only [Pumped, phase] at pumped
    exact ⟨pumped.1 ▸ prefix_rfl, .inl pumped.2.2.1⟩
  | dialing | dialFailed | connected | reporting ok | writingResult ok =>
    simp only [Pumped, phase] at pumped
    simp [pumped]
  | _ => exact (pumped_of_stopped (by rw [phase]; rfl)).mp pumped

def WorkerStep.pumps : WorkerStep → Bool
  | .take | .handle _ _ | .halfClose _ _ => true
  | _ => false

variable {step : WorkerStep}

namespace Session

theorem workerStep_rests (rests : step.pumps = false)
    (stepped : session.workerStep index shared step = some (session', shared')) :
    (session'.taken = session.taken ∧ session'.written = session.written ∧
      session'.hostEOF = session.hostEOF ∧ session'.halfCloses = session.halfCloses) ∧
    (session.worker.stage = .fresh ∧ session'.worker.stage = .fresh ∨
      session.worker.stage = .fresh ∧ session'.worker = .serving ∨
      session.worker = .serving ∧ session'.worker = .serving ∨ session'.worker.stopped = true) := by
  unfold workerStep at stepped
  split at stepped
  all_goals first | (cases stepped; done) | (cases rests; done) | skip
  all_goals rename_i here
  all_goals repeat' split at stepped
  all_goals cases stepped
  all_goals simp_all [stage, stopped, closeGuest, emit_eq]

section

variable (pumped : session.Pumped)
include pumped

theorem workerStep_rests_pumped (rests : step.pumps = false)
    (stepped : session.workerStep index shared step = some (session', shared')) :
    session'.Pumped := by
  obtain ⟨⟨taken, written, eof, halfCloses⟩, moves⟩ := workerStep_rests rests stepped
  rcases moves with ⟨fresh, fresh'⟩ | ⟨fresh, serving⟩ | ⟨serving, serving'⟩ | stopped
  · rw [pumped_of_fresh fresh] at pumped
    rw [pumped_of_fresh fresh', taken, written, eof, halfCloses]
    exact pumped
  · rw [pumped_of_fresh fresh] at pumped
    simp only [Pumped, serving, Halves, taken, written, eof, halfCloses]
    simp [pumped, dataOf]
  · simp only [Pumped, serving, serving', Halves, taken, written, eof, halfCloses] at pumped ⊢
    exact pumped
  · rw [pumped_of_stopped stopped, taken, written, halfCloses]
    exact pumped.carried

theorem workerStep_take_pumped (stepped : session.workerStep index shared .take = some (session', shared')) :
    session'.Pumped := by
  cases phase : session.worker with
  | serving =>
    simp only [Pumped, phase] at pumped
    simp only [workerStep, phase] at stepped
    cases queued : session.outbound with
    | nil => simp [queued] at stepped
    | cons frame rest =>
      simp only [queued] at stepped
      cases stepped
      obtain ⟨written, halves⟩ := pumped
      refine ⟨session.taken, rfl, written, halves.1, fun eof => ?_⟩
      obtain ⟨once, half⟩ := halves.2 eof
      exact ⟨once, by simpa using half.append [frame] []⟩
  | _ => simp [workerStep, phase] at stepped

omit pumped in
theorem afterData_pumped {before : List Frame} {frame : Frame}
    (taken : session.taken = before ++ [frame]) (written : session.written = dataOf session.taken)
    (halves : session.Halves before) :
    { session with worker := session.afterData frame }.Pumped := by
  unfold afterData
  split
  · rename_i closes
    simp only [Bool.and_eq_true, Bool.not_eq_true'] at closes
    obtain ⟨none, first⟩ := halves.1 closes.2
    refine ⟨written, closes.2, none, before, frame, [], taken, closes.1, first, ?_⟩
    rw [written, taken, dataOf_append]
    exact prefix_append _ _
  rename_i stays
  simp only [Bool.and_eq_true, Bool.not_eq_true', not_and, Bool.not_eq_false] at stays
  refine ⟨written, fun eof => ?_, halves.2⟩
  obtain ⟨none, first⟩ := halves.1 eof
  refine ⟨none, fun earlier member => ?_⟩
  rw [taken] at member
  rcases mem_append.mp member with seen | last
  · exact first earlier seen
  rw [mem_singleton.mp last]
  cases closes : frame.closeWrite with
  | false => rfl
  | true => simp [stays closes] at eof

theorem workerStep_handle_pumped {count : Nat} {succeeds : Bool}
    (stepped : session.workerStep index shared (.handle count succeeds) =
      some (session', shared')) : session'.Pumped := by
  have carried := pumped.carried
  cases phase : session.worker with
  | handling frame =>
    simp only [Pumped, phase] at pumped
    simp only [workerStep, phase] at stepped
    obtain ⟨before, taken, written, halves⟩ := pumped
    split at stepped
    · rename_i empty
      cases stepped
      apply afterData_pumped taken _ halves
      rw [written, taken]
      simp [empty]
    split at stepped
    · cases stepped
      exact carried
    rename_i unseen
    split at stepped
    · cases stepped
      refine ⟨?_, .inl (halves.1 (by simpa using unseen)).1⟩
      simp only [written, taken, dataOf_append, dataOf_singleton]
      exact (prefix_append_right_inj _).mpr (List.take_prefix _ _)
    · split at stepped <;> cases stepped
      have eof : session.hostEOF = false := by simpa using unseen
      refine @afterData_pumped { session with
        written := session.written ++ frame.data } before frame taken ?_
        ⟨halves.1, fun seen => ?_⟩
      · simp [written, taken]
      · simp [eof] at seen
  | _ => simp [workerStep, phase] at stepped

theorem workerStep_halfClose_pumped {supported succeeds : Bool}
    (stepped : session.workerStep index shared (.halfClose supported succeeds) =
      some (session', shared')) : session'.Pumped := by
  have carried := pumped.carried
  cases phase : session.worker with
  | halfClosing =>
    simp only [Pumped, phase] at pumped
    simp only [workerStep, phase] at stepped
    obtain ⟨written, eof, none, half⟩ := pumped
    split at stepped
    · cases stepped
      exact carried
    split at stepped
    · cases stepped
      exact ⟨carried.1, .inr ⟨by simp [none], half⟩⟩
    cases stepped
    cases session.guestEOF with
    | true => exact ⟨carried.1, .inr ⟨by simp [none], half⟩⟩
    | false => exact ⟨written, fun same => (by cases same), fun _ => ⟨by simp [none], half⟩⟩
  | _ => simp [workerStep, phase] at stepped

theorem workerStep_pumped (stepped : session.workerStep index shared step = some (session', shared')) :
    session'.Pumped := by
  cases step with
  | take => exact workerStep_take_pumped pumped stepped
  | handle count succeeds => exact workerStep_handle_pumped pumped stepped
  | halfClose supported succeeds => exact workerStep_halfClose_pumped pumped stepped
  | _ => exact workerStep_rests_pumped pumped rfl stepped

end

theorem Voiced.congr (voiced : session.Voiced) (reader : session'.reader = session.reader)
    (said : saidData session'.word = saidData session.word)
    (readBytes : session'.readBytes = session.readBytes) : session'.Voiced := by
  unfold Voiced at voiced ⊢
  rw [reader, said, readBytes]
  exact voiced

theorem workerStep_silent (stepped : session.workerStep index shared step = some (session', shared'))
    (rests : ∀ succeeds, step ≠ .write succeeds) :
    session'.reader = session.reader ∧ session'.word = session.word ∧
      session'.readBytes = session.readBytes ∧ shared'.log = shared.log := by
  unfold workerStep at stepped
  split at stepped
  all_goals first | (cases stepped; done) | (exact absurd rfl (rests _)) | skip
  all_goals repeat' split at stepped
  all_goals cases stepped
  all_goals first | exact ⟨rfl, rfl, rfl, rfl⟩ | exact ⟨rfl, rfl, rfl, Shared.lock_log ‹_›⟩

theorem workerStep_voiced (ok : session.OK index shared) (voiced : session.Voiced)
    (stepped : session.workerStep index shared step = some (session', shared')) :
    session'.Voiced := by
  cases step with
  | write succeeds =>
    have shape := ok.shape
    cases phase : session.worker with
    | writingResult result =>
      simp only [Shape, phase, stage] at shape
      obtain ⟨_, silent, absent, _⟩ := shape
      simp only [Voiced, absent] at voiced
      simp only [workerStep, phase, emit_eq, silent] at stepped
      split at stepped
      · cases stepped
      · split at stepped <;> cases stepped
        · simp_all [Voiced, saidData]
        · cases succeeds <;> simp_all [Voiced, saidData]
    | writingClose =>
      simp only [workerStep, phase, emit_eq] at stepped
      split at stepped <;> cases stepped
      refine voiced.congr rfl ?_ rfl
      cases succeeds <;> simp [saidData]
    | _ => simp [workerStep, phase] at stepped
  | _ =>
    obtain ⟨reader, word, readBytes, _⟩ := workerStep_silent stepped fun _ same => by cases same
    exact voiced.congr reader (by rw [word]) readBytes

theorem voiced_next (ending : ReadEnd) (reader : session.reader = ending.next)
    (said : session.readBytes = saidData session.word) : session.Voiced := by
  cases ending with
  | more | eof =>
    simp only [Voiced, reader, ReadEnd.next]
    exact said
  | failed =>
    simp only [Voiced, reader, ReadEnd.next]
    exact said ▸ prefix_rfl

theorem Voiced.said (voiced : session.Voiced) : saidData session.word <+: session.readBytes := by
  unfold Voiced at voiced
  cases phase : session.reader with
  | sendingData payload ending | writingData payload ending =>
    simp only [phase] at voiced
    exact voiced ▸ prefix_append _ _
  | absent =>
    simp only [phase] at voiced
    simp [voiced]
  | closing | closingGuest | finished =>
    simp only [phase] at voiced
    exact voiced
  | _ =>
    simp only [phase] at voiced
    exact voiced ▸ prefix_rfl

theorem ReaderMove.voiced (moved : ReaderMove index session shared session' shared') (voiced : session.Voiced) :
    session'.Voiced := by
  have said := voiced.said
  cases moved with
  | @read bytes ending phase =>
    simp only [Voiced, phase] at voiced
    by_cases empty : bytes = []
    · apply voiced_next ending
      · simp [empty]
      · simp [empty, voiced]
    · simp [Voiced, empty, voiced]
  | lockData phase | lockCloseWrite phase | eof phase =>
    simp only [Voiced, phase] at voiced
    exact voiced
  | @writeData _ ending succeeds _ phase =>
    simp only [Voiced, phase] at voiced
    rw [emit_eq]
    cases succeeds with
    | true =>
      apply voiced_next ending rfl
      simp only [↓reduceIte, saidData_append, voiced]
      simp [saidData]
    | false => exact said
  | @writeCloseWrite succeeds _ phase =>
    simp only [Voiced, phase] at voiced
    rw [emit_eq]
    cases succeeds with
    | true => simp [Voiced, voiced, saidData]
    | false => exact said
  | leave | cancel | closeGuest => exact said

theorem readerStep_pump {step : ReaderStep}
    (stepped : session.readerStep index shared step = some (session', shared')) :
    session'.worker = session.worker ∧ session'.taken = session.taken ∧
      session'.written = session.written ∧ session'.hostEOF = session.hostEOF ∧
      session'.halfCloses = session.halfCloses ∧ session'.outbound = session.outbound ∧
      session'.sent = session.sent ∧ session'.dropped = session.dropped := by
  simp only [readerStep, emit_eq] at stepped
  repeat' split at stepped
  all_goals cases stepped
  all_goals exact ⟨rfl, rfl, rfl, rfl, rfl, rfl, rfl, rfl⟩

theorem Pumped.congr (pumped : session.Pumped) (worker : session'.worker = session.worker)
    (taken : session'.taken = session.taken) (written : session'.written = session.written)
    (hostEOF : session'.hostEOF = session.hostEOF)
    (halfCloses : session'.halfCloses = session.halfCloses) : session'.Pumped := by
  simp only [Pumped, Halves, worker, taken, written, hostEOF, halfCloses] at pumped ⊢
  exact pumped

end Session

end BVisor.Ingress
