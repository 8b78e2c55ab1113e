import BVisor.Ingress.Pumps

/-! The bytes that the relay carries, over whole runs: between the host's frames and the guest, and
between the guest and the frames for the host. -/

namespace BVisor.Ingress

open List Session

variable {index : Nat} {session session' : Session} {shared shared' : Shared}

def Faithful (sessions : List Session) : Prop :=
  ∀ session ∈ sessions, session.Pumped ∧ session.Voiced

variable {sessions : List Session}

theorem Faithful.set (faithful : Faithful sessions)
    (kept : session'.Pumped ∧ session'.Voiced) : Faithful (sessions.set index session') := by
  intro found member
  rcases mem_or_eq_of_mem_set member with old | rfl
  · exact faithful found old
  · exact kept

variable {change : Session → Session}

theorem Faithful.modify (faithful : Faithful sessions)
    (kept : ∀ session, sessions[index]? = some session → session.Pumped ∧ session.Voiced →
      (change session).Pumped ∧ (change session).Voiced) :
    Faithful (sessions.modify index change) := by
  cases found : sessions[index]? with
  | none =>
    rw [modify_eq_self change found]
    exact faithful
  | some session =>
    rw [modify_eq_set change found]
    exact faithful.set (kept session found (faithful session (mem_of_getElem? found)))

theorem Faithful.adjust (faithful : Faithful sessions) (unnoticed : Unnoticed change)
    (same : ∀ session, (change session).taken = session.taken ∧
      (change session).written = session.written ∧ (change session).hostEOF = session.hostEOF ∧
      (change session).halfCloses = session.halfCloses ∧
      (change session).readBytes = session.readBytes) :
    Faithful (sessions.modify index change) := by
  apply faithful.modify
  intro session _ kept
  obtain ⟨taken, written, eof, halfCloses, readBytes⟩ := same session
  exact ⟨kept.1.congr (unnoticed.worker session) taken written eof halfCloses,
    kept.2.congr (unnoticed.reader session) (by rw [unnoticed.word session]) readBytes⟩

variable {relay next : Relay}

theorem Session.Pumped.abandoned (pumped : session.Pumped)
    (turned : session.worker = .turnedAway) : { session with worker := .done }.Pumped := by
  simp only [Session.Pumped, turned] at pumped
  exact pumped

variable {step : DispatcherStep} {event : Event} {frame : HostFrame}

namespace Relay

theorem DispatcherMove.faithful (moved : DispatcherMove relay step next) (ok : relay.OK)
    (faithful : Faithful relay.sessions) : Faithful next.sessions := by
  have abandoned {index : Nat} {frame : Out} (refusing : relay.dispatcher.refusal = some (index, frame))
      (session : Session) (found : relay.sessions[index]? = some session) (pumped : session.Pumped) :
      { session with worker := .done }.Pumped := by
    obtain ⟨refused, lookup, turned, _⟩ := ok.refusal index frame refusing
    rw [lookup] at found
    exact pumped.abandoned (Option.some.inj found ▸ turned)
  cases moved with
  | stop | lock => exact faithful
  | abandon phase =>
    apply faithful.modify
    exact fun session found kept => ⟨abandoned (by rw [phase]; rfl) session found kept.1, kept.2⟩
  | @write index frame succeeds _ phase =>
    have refusing : relay.dispatcher.refusal = some (index, frame) := by rw [phase]; rfl
    obtain ⟨_, _, _, stage⟩ := ok.refusal index frame refusing
    have noData : saidData [frame] = [] := by
      rcases stage with ⟨rfl, _⟩ | ⟨rfl, _⟩ <;> rfl
    have said (session : Session) : saidData (session.emit frame true).word = saidData session.word := by
      simp [emit, saidData_append, noData]
    split
    · apply faithful.modify
      exact fun session found kept => ⟨abandoned refusing session found kept.1, kept.2⟩
    split
    · apply faithful.modify
      intro session found kept
      exact ⟨abandoned refusing session found kept.1, kept.2.congr rfl (said session) rfl⟩
    · apply faithful.modify
      intro session found kept
      exact ⟨kept.1, kept.2.congr rfl (said session) rfl⟩
  | enqueue => exact faithful.adjust (.enqueue _) fun _ => ⟨rfl, rfl, rfl, rfl, rfl⟩
  | drop => exact faithful.adjust .drop fun _ => ⟨rfl, rfl, rfl, rfl, rfl⟩
  | cancel => exact faithful.adjust .cancel fun _ => ⟨rfl, rfl, rfl, rfl, rfl⟩
  | closeGuest => exact faithful.adjust .closeGuest fun _ => ⟨rfl, rfl, rfl, rfl, rfl⟩

section

variable (faithful : Faithful relay.sessions)
include faithful

theorem openSession_faithful {dispatcher : Dispatcher} (kept : session.Pumped ∧ session.Voiced) :
    Faithful (relay.openSession session dispatcher).sessions := by
  intro found member
  rcases mem_append.mp member with old | new
  · exact faithful found old
  · exact mem_singleton.mp new ▸ kept

theorem HostMove.keepsFaithful (moved : HostMove relay frame next) : Faithful next.sessions := by
  cases moved with
  | ignore | malformed | reopen | tooLong => exact faithful
  | overLimit => exact openSession_faithful faithful ⟨⟨prefix_rfl, .inl rfl⟩, rfl, rfl⟩
  | opened => exact openSession_faithful faithful ⟨⟨rfl, rfl, rfl, rfl⟩, rfl, rfl⟩
  | queue content => exact faithful.adjust (.send content) fun _ => ⟨rfl, rfl, rfl, rfl, rfl⟩
  | close => exact faithful.adjust .close fun _ => ⟨rfl, rfl, rfl, rfl, rfl⟩

end

theorem step_faithful (ok : relay.OK) (faithful : Faithful relay.sessions)
    (stepped : relay.step event = some next) : Faithful next.sessions := by
  cases move_of_step stepped with
  | host _ moved => exact moved.keepsFaithful faithful
  | dispatcher moved => exact moved.faithful ok faithful
  | worker found acted =>
    obtain ⟨pumped, voiced⟩ := faithful _ (mem_of_getElem? found)
    exact faithful.set ⟨workerStep_pumped pumped acted,
      workerStep_voiced (ok.table.ok _ _ found) voiced acted⟩
  | reader found acted =>
    obtain ⟨pumped, voiced⟩ := faithful _ (mem_of_getElem? found)
    obtain ⟨worker, taken, written, eof, halfCloses, _⟩ := readerStep_pump acted
    exact faithful.set ⟨pumped.congr worker taken written eof halfCloses, (readerMove_of_step acted).voiced voiced⟩
  | shutdown | closeConn => exact faithful
  | propagate => exact faithful.adjust .cancel fun _ => ⟨rfl, rfl, rfl, rfl, rfl⟩
  | shutdownGuest => exact faithful.adjust .closeGuest fun _ => ⟨rfl, rfl, rfl, rfl, rfl⟩

end Relay

def Dispatcher.pending : Dispatcher → Nat → List Frame
  | .queueing session frame, index => if session = index then [frame] else []
  | _, _ => []

/-- What the host sent is what the worker took, what is queued, and what was left out at the
end. -/
def Session.Queued (pending : List Frame) (session : Session) : Prop :=
  ∃ rest, session.sent = session.taken ++ session.outbound ++ rest ∧
    (session.dropped = false → rest = pending)

def Gapless (dispatcher : Dispatcher) (sessions : List Session) : Prop :=
  ∀ (index : Nat) (session : Session), sessions[index]? = some session → session.Queued (dispatcher.pending index)

theorem Session.Queued.congr {pending : List Frame} (queued : session.Queued pending)
    (sent : session'.sent = session.sent)
    (passed : session'.taken ++ session'.outbound = session.taken ++ session.outbound)
    (dropped : session'.dropped = session.dropped) : session'.Queued pending := by
  unfold Session.Queued
  rw [sent, passed, dropped]
  exact queued

theorem Session.workerStep_queue {step : WorkerStep}
    (stepped : session.workerStep index shared step = some (session', shared')) :
    session'.sent = session.sent ∧
      session'.taken ++ session'.outbound = session.taken ++ session.outbound ∧
      session'.dropped = session.dropped := by
  simp only [workerStep, emit_eq] at stepped
  repeat' split at stepped
  all_goals cases stepped
  all_goals simp_all [closeGuest]

variable {sessions : List Session} {dispatcher : Dispatcher}

theorem Gapless.set (gapless : Gapless dispatcher sessions) (kept : session'.Queued (dispatcher.pending index)) :
    Gapless dispatcher (sessions.set index session') := by
  intro other found lookup
  rcases getElem?_set_cases lookup with ⟨rfl, rfl⟩ | ⟨_, lookup⟩
  · exact kept
  · exact gapless other found lookup

variable {dispatcher dispatcher' : Dispatcher} {change : Session → Session}

section

variable (gapless : Gapless dispatcher sessions)
include gapless

theorem Gapless.modify (others : ∀ other, other ≠ index → dispatcher'.pending other = dispatcher.pending other)
    (kept : ∀ session, sessions[index]? = some session →
      session.Queued (dispatcher.pending index) →
      (change session).Queued (dispatcher'.pending index)) :
    Gapless dispatcher' (sessions.modify index change) := by
  intro other found lookup
  obtain ⟨session, known, ⟨rfl, rfl⟩ | ⟨differs, rfl⟩⟩ := getElem?_modify_cases lookup
  · exact kept session known (gapless index session known)
  · rw [others other (Ne.symm differs)]
    exact gapless other found known

theorem Gapless.moves (pending : dispatcher'.pending = dispatcher.pending) : Gapless dispatcher' sessions := by
  intro index session found
  rw [pending]
  exact gapless index session found

theorem Gapless.adjust (pending : dispatcher'.pending = dispatcher.pending)
    (same : ∀ session, (change session).sent = session.sent ∧
      (change session).taken = session.taken ∧ (change session).outbound = session.outbound ∧
      (change session).dropped = session.dropped) :
    Gapless dispatcher' (sessions.modify index change) := by
  apply gapless.modify
  · exact fun other _ => by rw [pending]
  · intro session _ queued
    obtain ⟨sent, taken, outbound, dropped⟩ := same session
    rw [pending]
    exact queued.congr sent (by rw [taken, outbound]) dropped

end

open Dispatcher

namespace Relay

/-- The dispatcher does not queue a frame for a connection after it has discarded one. -/
def noGap (relay : Relay) : Event → Bool
  | .dispatcher .enqueue =>
    match relay.dispatcher with
    | .queueing index _ => (relay.sessions[index]?.map Session.dropped) != some true
    | _ => true
  | _ => true

def noGapStep (relay : Relay) (event : Event) : Option Relay :=
  if relay.noGap event then relay.step event else none

section

variable (gapless : Gapless relay.dispatcher relay.sessions)
include gapless

theorem DispatcherMove.keepsGapless {step : DispatcherStep} (moved : DispatcherMove relay step next)
    (noGap : relay.noGap (.dispatcher step) = true) : Gapless next.dispatcher next.sessions := by
  cases moved with
  | stop phase | lock phase => exact gapless.moves (by rw [phase]; rfl)
  | abandon phase | cancel phase | closeGuest phase =>
    exact gapless.adjust (by rw [phase]; rfl) fun _ => ⟨rfl, rfl, rfl, rfl⟩
  | write phase =>
    repeat' split
    all_goals exact gapless.adjust (by rw [phase]; rfl) fun _ => ⟨rfl, rfl, rfl, rfl⟩
  | @enqueue index frame session phase found =>
    simp only [Relay.noGap, phase, found, Option.map_some] at noGap
    apply gapless.modify
    · intro other differs
      simp [phase, pending, Ne.symm differs]
    · intro known lookup queued
      rw [found] at lookup
      cases lookup
      obtain ⟨rest, sent, last⟩ := queued
      have kept : session.dropped = false := by simpa using noGap
      refine ⟨[], ?_, fun _ => rfl⟩
      simp [sent, last kept, phase, pending]
  | drop phase =>
    apply gapless.modify
    · intro other differs
      simp [phase, pending, Ne.symm differs]
    · intro known lookup queued
      obtain ⟨rest, sent, last⟩ := queued
      exact ⟨rest, sent, nofun⟩

theorem openSession_gapless (pending : dispatcher.pending = relay.dispatcher.pending)
    (kept : session.sent = [] ∧ session.taken = [] ∧ session.outbound = [])
    (idle : relay.dispatcher.pending relay.sessions.length = []) :
    Gapless dispatcher (relay.openSession session dispatcher).sessions := by
  intro other found lookup
  rw [pending]
  rcases getElem?_append_cases lookup with ⟨rfl, rfl⟩ | ⟨_, lookup⟩
  · rw [idle]
    exact ⟨[], by simp [kept], fun _ => rfl⟩
  · exact gapless other found lookup

theorem HostMove.keepsGapless (moved : HostMove relay frame next)
    (reading : relay.dispatcher = .reading) : Gapless next.dispatcher next.sessions := by
  cases moved with
  | ignore => exact gapless
  | malformed | reopen | tooLong => exact gapless.moves (by rw [reading]; rfl)
  | overLimit | opened =>
    exact openSession_gapless gapless (by rw [reading]; rfl) ⟨rfl, rfl, rfl⟩ (by rw [reading]; rfl)
  | queue content =>
    apply gapless.modify
    · intro other differs
      simp [reading, pending, Ne.symm differs]
    · intro session _ queued
      obtain ⟨rest, sent, last⟩ := queued
      refine ⟨rest ++ [content], by simp [sent], fun kept => ?_⟩
      simp [last kept, reading, pending]
  | close => exact gapless.adjust (by rw [reading]; rfl) fun _ => ⟨rfl, rfl, rfl, rfl⟩

theorem step_gapless (noGap : relay.noGap event = true) (stepped : relay.step event = some next) :
    Gapless next.dispatcher next.sessions := by
  cases move_of_step stepped with
  | host reading moved => exact moved.keepsGapless gapless reading
  | dispatcher moved => exact moved.keepsGapless gapless noGap
  | worker found acted =>
    obtain ⟨sent, passed, dropped⟩ := workerStep_queue acted
    exact gapless.set ((gapless _ _ found).congr sent passed dropped)
  | reader found acted =>
    obtain ⟨_, taken, _, _, _, outbound, sent, dropped⟩ := readerStep_pump acted
    exact gapless.set ((gapless _ _ found).congr sent (by rw [taken, outbound]) dropped)
  | shutdown | closeConn => exact gapless
  | propagate | shutdownGuest => exact gapless.adjust rfl fun _ => ⟨rfl, rfl, rfl, rfl⟩

end

theorem noGapStep_some (stepped : relay.noGapStep event = some next) :
    relay.noGap event = true ∧ relay.step event = some next := by
  unfold noGapStep at stepped
  split at stepped
  · rename_i noGap
    exact ⟨noGap, stepped⟩
  · cases stepped

end Relay

theorem Session.Queued.sent_eq {pending : List Frame} (queued : session.Queued pending) :
    ∃ more, session.sent = session.taken ++ more := by
  obtain ⟨rest, sent, _⟩ := queued
  exact ⟨session.outbound ++ rest, by simp [sent]⟩

open Data in
/-- In every run the DATA said for a connection is a prefix of what was read from its guest, whose
write side is closed at most once. In every run that queues nothing for a connection after having
discarded a frame of it, what its guest received is a prefix of what the host sent, and its write
side is closed after all that the host sent before CLOSE_WRITE. -/
theorem relay_fidelity (relay : Relay) (index : Nat) (session : Session)
    (found : relay.sessions[index]? = some session) :
    (Reaches Relay.step Relay.initial relay →
      saidData (wordOf index relay.shared.log) <+: session.readBytes ∧
        session.halfCloses ≤ 1) ∧
    (Reaches Relay.noGapStep Relay.initial relay →
      session.written <+: dataOf session.sent ∧
        (session.halfCloses ≠ 0 → HalfClosedAfter session.sent session.written)) := by
  constructor
  · intro reaches
    obtain ⟨ok, faithful⟩ := reaches.invariant
      (fun relay => relay.OK ∧ Faithful relay.sessions)
      (fun _ _ _ kept stepped =>
        ⟨Relay.step_ok kept.1 stepped, Relay.step_faithful kept.1 kept.2 stepped⟩)
      ⟨Relay.initial_ok, by simp [Faithful, Relay.initial]⟩
    obtain ⟨pumped, voiced⟩ := faithful session (mem_of_getElem? found)
    rw [ok.table.words index session found]
    refine ⟨voiced.said, ?_⟩
    rcases pumped.carried.2 with none | ⟨once, _⟩ <;> omega
  · intro reaches
    obtain ⟨ok, faithful, gapless⟩ := reaches.invariant
      (fun relay => relay.OK ∧ Faithful relay.sessions ∧ Gapless relay.dispatcher relay.sessions)
      (by
        rintro relay event next ⟨ok, faithful, gapless⟩ guarded
        obtain ⟨noGap, stepped⟩ := Relay.noGapStep_some guarded
        exact ⟨Relay.step_ok ok stepped, Relay.step_faithful ok faithful stepped,
          Relay.step_gapless gapless noGap stepped⟩)
      ⟨Relay.initial_ok, by simp [Faithful, Relay.initial], by simp [Gapless, Relay.initial]⟩
    obtain ⟨pumped, _⟩ := faithful session (mem_of_getElem? found)
    obtain ⟨more, sent⟩ := (gapless index session found).sent_eq
    rw [sent, dataOf_append]
    refine ⟨pumped.carried.1.trans (prefix_append _ _), fun closed => ?_⟩
    rcases pumped.carried.2 with none | ⟨_, half⟩
    · exact absurd none closed
    · simpa using half.append more []

/-- A connection that is served, up to the start of its reader. -/
def connecting : List Event :=
  [.host (.openConn 7 [] 80), .worker 0 (.dialed true), .worker 0 .setGuest, .worker 0 .lock,
    .worker 0 (.write true)]

def halfClosing : List Event :=
  connecting ++ [.host (.data 7 [1, 2]), .dispatcher .enqueue, .worker 0 .take,
    .worker 0 (.handle 2 true), .host (.closeWrite 7), .dispatcher .enqueue, .worker 0 .take,
    .worker 0 (.handle 0 true), .worker 0 (.halfClose true true)]

def halfClosed : Relay :=
  { shared :=
      { ctxDone := false
        connClosed := false
        writeMu := none
        log := [.opened 0, .emitted 0 (.dialResult true)] }
    sessions :=
      [{ Session.new 7 with
          guestSet := true
          worker := .serving
          reader := .reading
          hostEOF := true
          word := [.dialResult true]
          sent := [⟨[1, 2], false⟩, ⟨[], true⟩]
          taken := [⟨[1, 2], false⟩, ⟨[], true⟩]
          written := [1, 2]
          halfCloses := 1 }]
    dispatcher := .reading }

theorem relay_fidelity_halfClosed :
    Data.Reaches Relay.noGapStep Relay.initial halfClosed ∧
      HalfClosedAfter [⟨[1, 2], false⟩, ⟨[], true⟩] [1, 2] := by
  have reaches : Data.Reaches Relay.noGapStep Relay.initial halfClosed := ⟨halfClosing, by decide⟩
  exact ⟨reaches, ((relay_fidelity halfClosed 0 _ rfl).2 reaches).2 (by decide)⟩

/-- The reader finds the guest broken and cancels the connection. Of two DATA frames that the host
then sends, the dispatcher discards the first and queues the second, which the worker takes before
it sees the cancellation. -/
def skipping : List Event :=
  connecting ++ [.reader 0 (.read [] .failed), .reader 0 .cancel, .host (.data 7 [1]),
    .dispatcher .drop, .host (.data 7 [2]), .dispatcher .enqueue, .worker 0 .take,
    .worker 0 (.handle 1 true)]

def skipped : Relay :=
  { shared :=
      { ctxDone := false
        connClosed := false
        writeMu := none
        log := [.opened 0, .emitted 0 (.dialResult true)] }
    sessions :=
      [{ Session.new 7 with
          cancelled := true
          guestSet := true
          worker := .serving
          reader := .closingGuest
          word := [.dialResult true]
          sent := [⟨[1], false⟩, ⟨[2], false⟩]
          taken := [⟨[2], false⟩]
          dropped := true
          written := [2] }]
    dispatcher := .reading }

theorem skipped_not_carried :
    Data.Reaches Relay.step Relay.initial skipped ∧
      ¬ (∀ session ∈ skipped.sessions, session.written <+: dataOf session.sent) :=
  ⟨⟨skipping, by decide⟩, by decide⟩

end BVisor.Ingress
