import BVisor.Ingress.Table

/-! What the relay says to the host: for each connection a sentence of the protocol, in whatever
order the goroutines, the host, the guests and a shutdown act. -/

namespace BVisor.Ingress

open Option Session Relay

/-- A sentence of the protocol, as far as it has been said. The DIAL_RESULT may only be left out for
a connection that the host closed or that a shutdown ended, and the CLOSE only after a shutdown. -/
def Sentence (hostClosed shutDown finished : Prop) (word : List Out) : Prop :=
  ∃ result talk halfClose ending, word = result ++ talk ++ halfClose ++ ending ∧
    (result = [] ∨ ∃ ok, result = [.dialResult ok]) ∧
    (talk ++ halfClose ≠ [] → result = [.dialResult true]) ∧
    (∀ frame ∈ talk, ∃ payload, frame = .data payload) ∧
    (halfClose = [] ∨ halfClose = [.closeWrite]) ∧
    (ending = [] ∨ ending = [.close]) ∧
    (result = [] → finished ∨ ending ≠ [] → hostClosed ∨ shutDown) ∧
    (ending = [] → finished → shutDown)

def Dispatcher.refusal : Dispatcher → Option (Nat × Out)
  | .refusing index frame | .writingRefusal index frame => some (index, frame)
  | _ => none

structure Relay.OK (relay : Relay) : Prop where
  table : Table relay.shared relay.sessions
  turnedAway : ∀ (index : Nat) (session : Session), relay.sessions[index]? = some session →
    session.worker = .turnedAway → ∃ frame, relay.dispatcher.refusal = some (index, frame)
  refusal : ∀ (index : Nat) (frame : Out), relay.dispatcher.refusal = some (index, frame) →
    ∃ session, relay.sessions[index]? = some session ∧ session.worker = .turnedAway ∧
      (frame = .dialResult false ∧ session.word = [] ∨
        frame = .close ∧ session.word = [.dialResult false])
  locked : ∀ (index : Nat) (frame : Out), relay.dispatcher = .writingRefusal index frame →
    relay.shared.writeMu = some .dispatcher
  closing : ∀ (index : Nat) (session : Session), relay.dispatcher = .closing index →
    relay.sessions[index]? = some session → session.closing = true

variable {relay next : Relay} {index : Nat} {session session' : Session} {shared' : Shared}
  {own : Holder} {sessions : List Session}

theorem modify_eq_set (change : Session → Session) (found : sessions[index]? = some session) :
    sessions.modify index change = sessions.set index (change session) := by
  obtain ⟨within, rfl⟩ := List.getElem?_eq_some_iff.mp found
  apply List.ext_getElem?
  intro other
  rw [List.getElem?_modify, List.getElem?_set]
  split
  · rename_i same
    subst same
    simp [within]
  · simp

theorem modify_eq_self (change : Session → Session)
    (missing : sessions[index]? = none) : sessions.modify index change = sessions :=
  List.modify_eq_self (List.getElem?_eq_none_iff.mp missing)

theorem getElem?_modify_cases {change : Session → Session} {other : Nat}
    (lookup : (sessions.modify index change)[other]? = some session') :
    ∃ session, sessions[other]? = some session ∧
      (index = other ∧ session' = change session ∨ index ≠ other ∧ session' = session) := by
  rw [List.getElem?_modify] at lookup
  obtain ⟨session, found, rfl⟩ := map_eq_some_iff.mp lookup
  refine ⟨session, found, ?_⟩
  split
  · exact .inl ⟨‹_›, rfl⟩
  · exact .inr ⟨‹_›, rfl⟩

theorem Relay.OK.act (ok : relay.OK) (found : relay.sessions[index]? = some session)
    (kept : session'.OK index shared') (effect : Effect own index session relay.shared session' shared')
    (owner : own = .worker index ∨ own = .reader index)
    (notTurned : session.worker ≠ .turnedAway) (stillNot : session'.worker ≠ .turnedAway) :
    (relay.setSession index (session', shared')).OK where
  table := by
    apply ok.table.update found kept effect
    · intro other differs
      rcases owner with rfl | rfl
      · exact fun same => differs (Holder.worker.inj same).symm
      · exact nofun
    · intro other differs
      rcases owner with rfl | rfl
      · exact nofun
      · exact fun same => differs (Holder.reader.inj same).symm
    · exact fun turnedAway => absurd turnedAway stillNot
  turnedAway := by
    intro other found' lookup turnedAway
    rcases getElem?_set_cases lookup with ⟨rfl, rfl⟩ | ⟨_, lookup⟩
    · exact absurd turnedAway stillNot
    · exact ok.turnedAway other found' lookup turnedAway
  refusal := by
    intro other frame refuses
    obtain ⟨refused, lookup, turnedAway, stage⟩ := ok.refusal other frame refuses
    refine ⟨refused, ?_, turnedAway, stage⟩
    have differs : index ≠ other := by
      rintro rfl
      rw [found] at lookup
      cases lookup
      exact notTurned turnedAway
    simp only [setSession]
    rw [List.getElem?_set_ne differs]
    exact lookup
  locked := by
    intro other frame writing
    refine writeMu_stays (ok.locked other frame writing) ?_ effect.writeMu
    rcases owner with rfl | rfl <;> exact nofun
  closing := by
    intro other found' closes lookup
    rcases getElem?_set_cases lookup with ⟨rfl, rfl⟩ | ⟨_, lookup⟩
    · exact effect.closing (ok.closing other session closes found)
    · exact ok.closing other found' closes lookup

/-- A change to a connection that its frames, its goroutines and the table do not notice. -/
structure Unnoticed (change : Session → Session) : Prop where
  id : ∀ session, (change session).id = session.id
  live : ∀ session, (change session).live = session.live
  worker : ∀ session, (change session).worker = session.worker
  reader : ∀ session, (change session).reader = session.reader
  word : ∀ session, (change session).word = session.word
  closing : ∀ session, session.closing = true → (change session).closing = true

theorem Unnoticed.send (frame : Frame) :
    Unnoticed fun session => { session with sent := session.sent ++ [frame] } :=
  ⟨fun _ => rfl, fun _ => rfl, fun _ => rfl, fun _ => rfl, fun _ => rfl, fun _ held => held⟩

theorem Unnoticed.enqueue (frame : Frame) :
    Unnoticed fun session => { session with outbound := session.outbound ++ [frame] } :=
  ⟨fun _ => rfl, fun _ => rfl, fun _ => rfl, fun _ => rfl, fun _ => rfl, fun _ held => held⟩

theorem Unnoticed.drop : Unnoticed fun session => { session with dropped := true } :=
  ⟨fun _ => rfl, fun _ => rfl, fun _ => rfl, fun _ => rfl, fun _ => rfl, fun _ held => held⟩

theorem Unnoticed.close : Unnoticed fun session => { session with closing := true } :=
  ⟨fun _ => rfl, fun _ => rfl, fun _ => rfl, fun _ => rfl, fun _ => rfl, fun _ _ => rfl⟩

theorem Unnoticed.cancel : Unnoticed fun session => { session with cancelled := true } :=
  ⟨fun _ => rfl, fun _ => rfl, fun _ => rfl, fun _ => rfl, fun _ => rfl, fun _ held => held⟩

theorem Unnoticed.closeGuest : Unnoticed closeGuest :=
  ⟨fun _ => rfl, fun _ => rfl, fun _ => rfl, fun _ => rfl, fun _ => rfl, fun _ held => held⟩

variable {change : Session → Session} {shared : Shared}

theorem Table.adjust (table : Table shared sessions) (found : sessions[index]? = some session)
    (unnoticed : Unnoticed change)
    (cancelled : session.worker.stage = .fresh → (change session).cancelled = true →
      session.cancelled = true ∨ (change session).closing = true ∨ shared.ctxDone = true) :
    Table shared (sessions.set index (change session)) := by
  have ok := table.ok index session found
  have worker := unnoticed.worker session
  have reader := unnoticed.reader session
  have word := unnoticed.word session
  have live := unnoticed.live session
  have shape : (change session).Shape shared.ctxDone :=
    ok.shape.mono (by rw [worker]) word reader live (unnoticed.closing session) (fun held => held) cancelled
  have effect : Effect .dispatcher index session shared (change session) shared :=
    .quiet (unnoticed.id session) (fun now => live ▸ now) (unnoticed.closing session)
      (fun done => worker.trans done) word (.inl rfl)
  exact table.update found ⟨shape, worker ▸ ok.workerLocked, reader ▸ ok.readerLocked⟩ effect
    nofun nofun fun turnedAway => worker ▸ turnedAway

variable {dispatcher : Dispatcher}

theorem Relay.OK.adjust (ok : relay.OK) (unnoticed : Unnoticed change)
    (cancelled : ∀ session, relay.sessions[index]? = some session → session.worker.stage = .fresh →
      (change session).cancelled = true → session.cancelled = true ∨
        (change session).closing = true ∨ relay.shared.ctxDone = true)
    (refusal : dispatcher = relay.dispatcher ∨
      dispatcher.refusal = none ∧ relay.dispatcher.refusal = none)
    (closes : ∀ other, dispatcher = .closing other → relay.dispatcher = .closing other ∨
      index = other ∧ ∀ session, (change session).closing = true) :
    { relay.modify index change with dispatcher }.OK := by
  have sameRefusal : dispatcher.refusal = relay.dispatcher.refusal := by
    rcases refusal with same | ⟨now, before⟩
    · rw [same]
    · rw [now, before]
  have sameLock (other : Nat) (frame : Out) (writing : dispatcher = .writingRefusal other frame) :
      relay.dispatcher = .writingRefusal other frame := by
    rcases refusal with same | ⟨now, before⟩
    · exact same ▸ writing
    · simp [writing, Dispatcher.refusal] at now
  refine ⟨?_, ?_, ?_, fun other frame writing => ok.locked other frame (sameLock other frame writing), ?_⟩
  · cases found : relay.sessions[index]? with
    | none =>
      simp only [modify, modify_eq_self change found]
      exact ok.table
    | some session =>
      simp only [modify, modify_eq_set change found]
      exact ok.table.adjust found unnoticed (cancelled session found)
  · intro other found' lookup turnedAway
    simp only [sameRefusal]
    obtain ⟨session, found, ⟨_, rfl⟩ | ⟨_, rfl⟩⟩ := getElem?_modify_cases lookup
    · exact ok.turnedAway other session found (unnoticed.worker session ▸ turnedAway)
    · exact ok.turnedAway other found' found turnedAway
  · intro other frame refuses
    simp only [sameRefusal] at refuses
    obtain ⟨refused, found, turnedAway, stage⟩ := ok.refusal other frame refuses
    simp only [modify, List.getElem?_modify, found]
    by_cases same : index = other
    · refine ⟨change refused, by simp [same], (unnoticed.worker refused).trans turnedAway, ?_⟩
      rw [unnoticed.word refused]
      exact stage
    · exact ⟨refused, by simp [same], turnedAway, stage⟩
  · intro other found' now lookup
    obtain ⟨session, found, ⟨_, rfl⟩ | ⟨differs, rfl⟩⟩ := getElem?_modify_cases lookup
    · rcases closes other now with before | ⟨_, closed⟩
      · exact unnoticed.closing session (ok.closing other session before found)
      · exact closed session
    · exact ok.closing other found' ((closes other now).resolve_right fun mine => differs mine.1) found

theorem Relay.OK.resume (ok : relay.OK) (idle : relay.dispatcher.refusal = none) (unnoticed : Unnoticed change)
    (cancelled : ∀ session, (change session).cancelled = session.cancelled) :
    { relay.modify index change with dispatcher := .reading }.OK := by
  apply ok.adjust unnoticed
  · exact fun session _ _ now => .inl (cancelled session ▸ now)
  · exact .inr ⟨rfl, idle⟩
  · exact nofun

theorem Relay.OK.nobody (ok : relay.OK) (reading : relay.dispatcher = .reading)
    (found : relay.sessions[index]? = some session) : session.worker ≠ .turnedAway := by
  intro turnedAway
  obtain ⟨frame, refuses⟩ := ok.turnedAway index session found turnedAway
  simp [reading, Dispatcher.refusal] at refuses

theorem Relay.OK.stop (ok : relay.OK) (reading : relay.dispatcher = .reading) :
    { relay with dispatcher := .stopped }.OK where
  table := ok.table
  turnedAway := fun _ _ found turnedAway => absurd turnedAway (ok.nobody reading found)
  refusal := by
    intro index frame refuses
    cases refuses
  locked := by
    intro index frame writing
    cases writing
  closing := by
    intro index session closes
    cases closes

theorem Relay.lookup_none {id : BitVec 32} (unused : relay.lookup id = none)
    (found : relay.sessions[index]? = some session) (sameId : session.id = id) :
    session.live = false := by
  have absent := List.findIdx?_eq_none_iff.mp unused session (List.mem_of_getElem? found)
  simpa [sameId] using absent

theorem Relay.OK.openSession (ok : relay.OK) (reading : relay.dispatcher = .reading)
    (unused : relay.lookup session.id = none)
    (kept : session.OK relay.sessions.length relay.shared) (silent : session.word = [])
    (room : session.live = true → relay.liveCount < maxConnections)
    (next : session.worker ≠ .turnedAway ∧ dispatcher = .reading ∨
      session.worker = .turnedAway ∧
        dispatcher = .refusing relay.sessions.length (.dialResult false)) :
    (relay.openSession session dispatcher).OK where
  table := by
    apply ok.table.opening _ (fun index earlier found => ok.nobody reading found) kept silent room
    exact fun index earlier found sameId => lookup_none unused found sameId
  turnedAway := by
    intro index found lookup turnedAway
    rcases getElem?_append_cases lookup with ⟨rfl, rfl⟩ | ⟨_, lookup⟩
    · rcases next with ⟨differs, _⟩ | ⟨_, rfl⟩
      · exact absurd turnedAway differs
      · exact ⟨_, rfl⟩
    · exact absurd turnedAway (ok.nobody reading lookup)
  refusal := by
    intro index frame refuses
    rcases next with ⟨_, rfl⟩ | ⟨turnedAway, rfl⟩
    · cases refuses
    · cases refuses
      exact ⟨session, by simp [openSession], turnedAway, .inl ⟨rfl, silent⟩⟩
  locked := by
    intro index frame writing
    rcases next with ⟨_, rfl⟩ | ⟨_, rfl⟩ <;> cases writing
  closing := by
    intro index found closes
    rcases next with ⟨_, rfl⟩ | ⟨_, rfl⟩ <;> cases closes

theorem Session.new_ok (id : BitVec 32) (index : Nat) (shared : Shared) :
    (new id).OK index shared :=
  ⟨⟨rfl, rfl, rfl, nofun⟩, nofun, nofun⟩

theorem Session.overLimit_ok (id : BitVec 32) (index : Nat) (shared : Shared) :
    (overLimit id).OK index shared :=
  ⟨⟨rfl, rfl, .inl rfl⟩, nofun, nofun⟩

namespace Relay

/-- What `dispatch` makes of a frame of the host. -/
inductive HostMove (relay : Relay) : HostFrame → Relay → Prop
  | ignore {frame : HostFrame} : HostMove relay frame relay
  | malformed : HostMove relay .malformed { relay with dispatcher := .stopped }
  | reopen {id : BitVec 32} {target : List Byte} {port : BitVec 16} (used : relay.lookup id ≠ none) :
    HostMove relay (.openConn id target port) { relay with dispatcher := .stopped }
  | tooLong {id : BitVec 32} {payload : List Byte} (long : payload.length > maxDataChunk) :
    HostMove relay (.data id payload) { relay with dispatcher := .stopped }
  | overLimit {id : BitVec 32} {target : List Byte} {port : BitVec 16} (unused : relay.lookup id = none)
      (full : maxConnections ≤ relay.liveCount) :
    HostMove relay (.openConn id target port)
      (relay.openSession (.overLimit id) (.refusing relay.sessions.length (.dialResult false)))
  | opened {id : BitVec 32} {target : List Byte} {port : BitVec 16} (unused : relay.lookup id = none)
      (room : relay.liveCount < maxConnections) :
    HostMove relay (.openConn id target port) (relay.openSession (.new id) .reading)
  | queue {frame : HostFrame} {index : Nat} (content : Frame) :
    HostMove relay frame { relay.modify index fun session => { session with sent := session.sent ++ [content] } with
      dispatcher := .queueing index content }
  | close {id : BitVec 32} {index : Nat} :
    HostMove relay (.close id) { relay.modify index fun session => { session with closing := true } with
      dispatcher := .closing index }

theorem hostMove (relay : Relay) (frame : HostFrame) : HostMove relay frame (relay.dispatch frame) := by
  have queued (frame : HostFrame) (id : BitVec 32) (content : Frame) :
      HostMove relay frame (relay.dispatchData id content) := by
    unfold dispatchData
    split
    · exact .ignore
    · split
      · exact .ignore
      · exact .queue content
  cases frame with
  | malformed => exact .malformed
  | openConn id target port =>
    simp only [dispatch]
    split
    · exact .ignore
    split
    · rename_i used
      exact .reopen (by simp [used])
    rename_i unused
    split
    · rename_i full
      exact .overLimit unused full
    · rename_i room
      exact .opened unused (Nat.lt_of_not_ge room)
  | data id payload =>
    simp only [dispatch]
    split
    · rename_i long
      exact .tooLong long
    · exact queued _ id _
  | closeWrite id => exact queued _ id _
  | close id =>
    simp only [dispatch]
    split
    · exact .ignore
    · split
      · exact .ignore
      · exact .close

theorem HostMove.ok {frame : HostFrame} (moved : HostMove relay frame next) (ok : relay.OK)
    (reading : relay.dispatcher = .reading) : next.OK := by
  have idle : relay.dispatcher.refusal = none := by rw [reading]; rfl
  cases moved with
  | ignore => exact ok
  | malformed | reopen | tooLong => exact ok.stop reading
  | overLimit unused =>
    exact ok.openSession reading unused (overLimit_ok _ _ _) rfl nofun (.inr ⟨rfl, rfl⟩)
  | opened unused room =>
    exact ok.openSession reading unused (new_ok _ _ _) rfl (fun _ => room) (.inl ⟨nofun, rfl⟩)
  | queue content =>
    apply ok.adjust (.send content)
    · exact fun session _ _ cancelled => .inl cancelled
    · exact .inr ⟨rfl, idle⟩
    · exact nofun
  | close =>
    apply ok.adjust .close
    · exact fun session _ _ _ => .inr (.inl rfl)
    · exact .inr ⟨rfl, idle⟩
    · intro other closing
      exact .inr ⟨Dispatcher.closing.inj closing, fun _ => rfl⟩

end Relay

variable {frame : Out}

theorem Relay.OK.refuse (ok : relay.OK) (refusing : relay.dispatcher.refusal = some (index, frame))
    (found : relay.sessions[index]? = some session) (turned : session.worker = .turnedAway)
    (kept : session'.OK index shared') (effect : Effect .dispatcher index session relay.shared session' shared')
    (next : session'.worker = .done ∧ dispatcher.refusal = none ∧
        (∀ other, dispatcher ≠ .closing other) ∨
      session'.worker = .turnedAway ∧ session'.word = [.dialResult false] ∧
        dispatcher = .refusing index .close) :
    { relay.setSession index (session', shared') with dispatcher }.OK where
  table := ok.table.update found kept effect (fun _ _ => nofun) (fun _ _ => nofun) fun _ => turned
  turnedAway := by
    intro other found' lookup turnedAway
    rcases getElem?_set_cases lookup with ⟨rfl, rfl⟩ | ⟨differs, lookup⟩
    · rcases next with ⟨done, _⟩ | ⟨_, _, rfl⟩
      · simp [done] at turnedAway
      · exact ⟨_, rfl⟩
    · obtain ⟨other', refuses⟩ := ok.turnedAway other found' lookup turnedAway
      simp only [refusing, some.injEq, Prod.mk.injEq] at refuses
      exact absurd refuses.1.symm differs
  refusal := by
    intro other frame' refuses
    rcases next with ⟨_, none, _⟩ | ⟨turnedAway, said, rfl⟩
    · simp [none] at refuses
    · cases refuses
      have within := (List.getElem?_eq_some_iff.mp found).1
      exact ⟨session', by simp [setSession, within], turnedAway, .inr ⟨rfl, said⟩⟩
  locked := by
    intro other frame' writing
    rcases next with ⟨_, none, _⟩ | ⟨_, _, rfl⟩
    · simp only at writing
      simp [writing, Dispatcher.refusal] at none
    · cases writing
  closing := by
    intro other found' closes
    rcases next with ⟨_, _, notClosing⟩ | ⟨_, _, rfl⟩
    · exact absurd closes (notClosing other)
    · cases closes

theorem Session.OK.abandoned (ok : session.OK index shared)
    (turned : session.worker = .turnedAway) (shut : shared'.ctxDone = true) :
    { session with worker := .done }.OK index shared' := by
  have shape := ok.shape
  simp only [Session.Shape, turned, WorkerPhase.stage] at shape
  obtain ⟨removed, absent, said⟩ := shape
  have unclosed : Unclosed session.word := said.imp_right .inl
  refine ⟨⟨removed, .inl ⟨⟨.inl absent, unclosed, fun _ => .inr shut⟩, shut⟩⟩, fun locked => (by cases locked), ?_⟩
  intro locked
  simp [absent, ReaderPhase.locked] at locked

namespace Relay

/-- What a step of the dispatcher does to the relay. -/
inductive DispatcherMove (relay : Relay) : DispatcherStep → Relay → Prop
  | stop (phase : relay.dispatcher = .reading) :
    DispatcherMove relay .stop { relay with dispatcher := .stopped }
  | lock {index : Nat} {frame : Out} (phase : relay.dispatcher = .refusing index frame)
      (free : relay.shared.writeMu = none) :
    DispatcherMove relay .lock { relay with
      shared := { relay.shared with writeMu := some .dispatcher }
      dispatcher := .writingRefusal index frame }
  | abandon {index : Nat} {frame : Out} (phase : relay.dispatcher = .refusing index frame)
      (shut : relay.shared.ctxDone = true) :
    DispatcherMove relay .lock { relay.modify index fun session => { session with worker := .done } with
      dispatcher := .stopped }
  | write {index : Nat} {frame : Out} {succeeds : Bool} {shared : Shared}
      (phase : relay.dispatcher = .writingRefusal index frame)
      (written : relay.shared.write index frame succeeds = some shared) :
    DispatcherMove relay (.write succeeds) (
      if !succeeds then
        { relay.modify index fun session => { session with worker := .done } with
          shared, dispatcher := .stopped }
      else if frame = .close then
        { relay.modify index fun session => { session.emit frame true with worker := .done } with
          shared, dispatcher := .reading }
      else
        { relay.modify index fun session => session.emit frame true with
          shared, dispatcher := .refusing index .close })
  | enqueue {index : Nat} {frame : Frame} {session : Session}
      (phase : relay.dispatcher = .queueing index frame) (found : relay.sessions[index]? = some session) :
    DispatcherMove relay .enqueue { relay.modify index fun session =>
      { session with outbound := session.outbound ++ [frame] } with dispatcher := .reading }
  | drop {index : Nat} {frame : Frame} (phase : relay.dispatcher = .queueing index frame) :
    DispatcherMove relay .drop { relay.modify index fun session => { session with dropped := true } with
      dispatcher := .reading }
  | cancel {index : Nat} (phase : relay.dispatcher = .closing index) :
    DispatcherMove relay .cancel { relay.modify index fun session => { session with cancelled := true } with
      dispatcher := .closingGuest index }
  | closeGuest {index : Nat} (phase : relay.dispatcher = .closingGuest index) :
    DispatcherMove relay .closeGuest { relay.modify index Session.closeGuest with dispatcher := .reading }

variable {step : DispatcherStep}

theorem dispatcherMove_of_step (stepped : relay.dispatcherStep step = some next) :
    DispatcherMove relay step next := by
  unfold dispatcherStep at stepped
  split at stepped
  next phase =>
    cases stepped
    exact .stop phase
  next phase =>
    split at stepped <;> cases stepped
    all_goals rename_i locking
    all_goals obtain ⟨free, ⟨same, rfl⟩ | ⟨same, rfl, shut⟩⟩ := Shared.lock_cases locking <;> cases same
    · exact .lock phase free
    · exact .abandon phase shut
  next phase =>
    split at stepped
    · cases stepped
    rename_i written
    have moved := DispatcherMove.write phase written
    repeat' split at stepped
    all_goals cases stepped
    all_goals simpa [*] using moved
  next phase =>
    repeat' split at stepped
    all_goals cases stepped
    exact .enqueue phase ‹_›
  next phase =>
    repeat' split at stepped
    all_goals cases stepped
    exact .drop phase
  next phase =>
    cases stepped
    exact .cancel phase
  next phase =>
    cases stepped
    exact .closeGuest phase
  next => cases stepped

theorem lockRefusal_ok (ok : relay.OK) (refusing : relay.dispatcher = .refusing index frame)
    (free : relay.shared.writeMu = none) : OK { relay with
      shared := { relay.shared with writeMu := some .dispatcher }
      dispatcher := .writingRefusal index frame } := by
  refine ⟨ok.table.share (fun held => held) (.inr (.inl free)) rfl, ?_, ?_, fun _ _ _ => rfl, ?_⟩
  · intro other found' lookup turnedAway
    simpa only [refusing, Dispatcher.refusal] using ok.turnedAway other found' lookup turnedAway
  · intro other frame' now
    cases now
    exact ok.refusal index frame (by rw [refusing]; rfl)
  · intro other found' closes
    cases closes

theorem DispatcherMove.ok (moved : DispatcherMove relay step next) (ok : relay.OK) :
    next.OK := by
  cases moved with
  | stop phase => exact ok.stop phase
  | lock phase free => exact lockRefusal_ok ok phase free
  | @abandon index frame phase shut =>
    have refuses : relay.dispatcher.refusal = some (index, frame) := by rw [phase]; rfl
    obtain ⟨session, found, turned, _⟩ := ok.refusal index frame refuses
    simp only [modify, modify_eq_set _ found]
    exact ok.refuse refuses found turned ((ok.table.ok index session found).abandoned turned shut)
      (.quiet rfl (fun held => held) (fun held => held) (fun _ => rfl) rfl (.inl rfl))
      (.inl ⟨rfl, rfl, fun _ same => (by cases same)⟩)
  | @write index frame succeeds shared' phase writing =>
    have refuses : relay.dispatcher.refusal = some (index, frame) := by rw [phase]; rfl
    have held := ok.locked index frame phase
    obtain ⟨session, found, turned, stage⟩ := ok.refusal index frame refuses
    have kept := ok.table.ok index session found
    have shape := kept.shape
    simp only [Session.Shape, turned, WorkerPhase.stage] at shape
    obtain ⟨removed, absent, _⟩ := shape
    have effect (session' : Session) (id : session'.id = session.id)
        (live : session'.live = session.live) (closing : session'.closing = session.closing)
        (word : session'.word = (session.emit frame succeeds).word) :
        Effect .dispatcher index session relay.shared session' shared' := by
      apply Effect.written writing held id (fun now => live ▸ now) closing.trans word
      · simp [turned]
      · rcases stage with ⟨_, said⟩ | ⟨_, said⟩ <;> simp [said]
      · exact fun _ => .inr turned
    simp only [modify, modify_eq_set _ found]
    obtain ⟨_, ⟨rfl, ctx, _⟩ | ⟨rfl, shut, _⟩⟩ := Shared.write_cases writing
    · rcases stage with ⟨rfl, said⟩ | ⟨rfl, said⟩
      · have word : (session.emit (.dialResult false) true).word = [.dialResult false] := by
          simp [emit, said]
        refine ok.refuse refuses found turned ⟨?_, ?_, ?_⟩ (effect _ rfl rfl rfl rfl) (.inr ⟨turned, word, rfl⟩)
        · simp only [Session.Shape, Session.TurnedAway]
          simp [turned, WorkerPhase.stage, removed, absent, said]
        · intro locked
          simp [turned, WorkerPhase.locked] at locked
        · intro locked
          simp [absent, ReaderPhase.locked] at locked
      · have left : { session.emit .close true with worker := .done }.Left shared'.ctxDone :=
          .inr ⟨.inl absent, _, .inr (.inl rfl), by simp [emit, said], fun same => (by cases same)⟩
        refine ok.refuse refuses found turned ⟨⟨removed, left⟩, fun locked => (by cases locked), ?_⟩
          (effect _ rfl rfl rfl rfl) (.inl ⟨rfl, rfl, fun _ same => (by cases same)⟩)
        intro locked
        simp [absent, emit, ReaderPhase.locked] at locked
    · exact ok.refuse refuses found turned (kept.abandoned turned shut)
        (effect _ rfl rfl rfl rfl) (.inl ⟨rfl, rfl, fun _ same => (by cases same)⟩)
  | enqueue phase => exact ok.resume (by rw [phase]; rfl) (.enqueue _) fun _ => rfl
  | drop phase => exact ok.resume (by rw [phase]; rfl) .drop fun _ => rfl
  | cancel phase =>
    apply ok.adjust .cancel
    · exact fun session found _ _ => .inr (.inl (ok.closing _ session phase found))
    · exact .inr ⟨rfl, by rw [phase]; rfl⟩
    · intro _ same
      cases same
  | closeGuest phase => exact ok.resume (by rw [phase]; rfl) .closeGuest fun _ => rfl

end Relay

theorem Session.workerStep_turnedAway {step : WorkerStep}
    (stepped : session.workerStep index shared step = some (session', shared')) :
    session.worker ≠ .turnedAway ∧ session'.worker ≠ .turnedAway := by
  have continues (frame : Frame) : session.afterData frame ≠ .turnedAway := by
    intro same
    have stage : (session.afterData frame).stage = .serving := afterData_stage frame
    simp [same, WorkerPhase.stage] at stage
  unfold workerStep at stepped
  split at stepped
  all_goals repeat' split at stepped
  all_goals cases stepped
  all_goals rename_i here
  all_goals simp_all

namespace Relay

inductive Move (relay : Relay) : Event → Relay → Prop
  | host {frame : HostFrame} {next : Relay} (reading : relay.dispatcher = .reading)
      (moved : HostMove relay frame next) : Move relay (.host frame) next
  | dispatcher {step : DispatcherStep} {next : Relay} (moved : DispatcherMove relay step next) :
    Move relay (.dispatcher step) next
  | worker {index : Nat} {step : WorkerStep} {session : Session} {result : Session × Shared}
      (found : relay.sessions[index]? = some session)
      (acted : session.workerStep index relay.shared step = some result) :
    Move relay (.worker index step) (relay.setSession index result)
  | reader {index : Nat} {step : ReaderStep} {session : Session} {result : Session × Shared}
      (found : relay.sessions[index]? = some session)
      (acted : session.readerStep index relay.shared step = some result) :
    Move relay (.reader index step) (relay.setSession index result)
  | shutdown : Move relay .shutdown { relay with shared := { relay.shared with ctxDone := true } }
  | closeConn : Move relay .closeConn { relay with shared := { relay.shared with connClosed := true } }
  | propagate {index : Nat} (shut : relay.shared.ctxDone = true) :
    Move relay (.propagate index) (relay.modify index fun session => { session with cancelled := true })
  | shutdownGuest {index : Nat} : Move relay (.shutdownGuest index) (relay.modify index Session.closeGuest)

variable {event : Event}

theorem move_of_step (stepped : relay.step event = some next) : Move relay event next := by
  cases event with
  | dispatcher step => exact .dispatcher (dispatcherMove_of_step stepped)
  | worker index step | reader index step =>
    simp only [Relay.step] at stepped
    split at stepped
    · cases stepped
    · obtain ⟨result, acted, rfl⟩ := map_eq_some_iff.mp stepped
      constructor <;> assumption
  | shutdown =>
    cases stepped
    exact .shutdown
  | host frame =>
    simp only [Relay.step] at stepped
    split at stepped <;> cases stepped
    exact .host ‹_› (relay.hostMove frame)
  | closeConn | propagate index | shutdownGuest index =>
    simp only [Relay.step] at stepped
    split at stepped <;> cases stepped
    constructor <;> assumption

theorem step_ok (ok : relay.OK) (stepped : relay.step event = some next) : next.OK := by
  cases move_of_step stepped with
  | host reading moved => exact moved.ok ok reading
  | dispatcher moved => exact moved.ok ok
  | worker found acted =>
    obtain ⟨kept, effect⟩ := workerStep_ok (ok.table.ok _ _ found) acted
    obtain ⟨notTurned, stillNot⟩ := workerStep_turnedAway acted
    exact ok.act found kept effect (.inl rfl) notTurned stillNot
  | @reader _ _ session _ found acted =>
    have known := ok.table.ok _ _ found
    obtain ⟨kept, effect⟩ := readerStep_ok known acted
    obtain ⟨⟨started, running, _, _, _, _, worker⟩, _⟩ := (readerMove_of_step acted).acts
    have stage := (known.shape.serving_of_reader started running).1
    have notTurned : session.worker ≠ .turnedAway := by
      intro turnedAway
      simp [turnedAway, WorkerPhase.stage] at stage
    exact ok.act found kept effect (.inr rfl) notTurned (worker ▸ notTurned)
  | shutdown =>
    exact ⟨ok.table.share (fun _ => rfl) (.inl rfl) rfl, ok.turnedAway, ok.refusal, ok.locked, ok.closing⟩
  | closeConn =>
    exact ⟨ok.table.share (fun held => held) (.inl rfl) rfl, ok.turnedAway, ok.refusal, ok.locked, ok.closing⟩
  | @propagate index shut =>
    exact @OK.adjust relay index _ relay.dispatcher ok .cancel
      (fun _ _ _ _ => .inr (.inr shut)) (.inl rfl) fun _ => .inl
  | @shutdownGuest index =>
    exact @OK.adjust relay index _ relay.dispatcher ok .closeGuest (fun _ _ _ => .inl) (.inl rfl) fun _ => .inl

theorem initial_ok : initial.OK where
  table := by constructor <;> simp [initial]
  turnedAway := by simp [initial]
  refusal := by simp [initial, Dispatcher.refusal]
  locked := by simp [initial]
  closing := by simp [initial]

end Relay

variable {word : List Out}

theorem Unclosed.parts (unclosed : Unclosed word) :
    ∃ result talk halfClose, word = result ++ talk ++ halfClose ∧
      (result = [] ∨ ∃ ok, result = [.dialResult ok]) ∧
      (talk ++ halfClose ≠ [] → result = [.dialResult true]) ∧
      (∀ frame ∈ talk, ∃ payload, frame = .data payload) ∧
      (halfClose = [] ∨ halfClose = [.closeWrite]) ∧ (result = [] → word = []) := by
  have allData (payloads : List (List Byte)) :
      ∀ frame ∈ payloads.map Out.data, ∃ payload, frame = .data payload := by
    intro frame member
    obtain ⟨payload, _, rfl⟩ := List.mem_map.mp member
    exact ⟨payload, rfl⟩
  rcases unclosed with rfl | rfl | ⟨payloads, rfl⟩ | ⟨_, ⟨payloads, rfl⟩, rfl⟩
  · exact ⟨[], [], [], rfl, .inl rfl, nofun, nofun, .inl rfl, fun _ => rfl⟩
  · exact ⟨[.dialResult false], [], [], rfl, .inr ⟨_, rfl⟩, nofun, nofun, .inl rfl, nofun⟩
  · exact ⟨[.dialResult true], _, [], by simp, .inr ⟨_, rfl⟩, fun _ => rfl, allData payloads,
      .inl rfl, nofun⟩
  · exact ⟨[.dialResult true], _, [.closeWrite], by simp, .inr ⟨_, rfl⟩, fun _ => rfl,
      allData payloads, .inr rfl, nofun⟩

variable {hostClosed shutDown finished : Prop}

theorem Unclosed.sentence (unclosed : Unclosed word) (silent : word = [] → finished → hostClosed ∨ shutDown)
    (ended : finished → shutDown) : Sentence hostClosed shutDown finished word := by
  obtain ⟨result, talk, halfClose, said, report, talks, allData, half, nothing⟩ := unclosed.parts
  refine ⟨result, talk, halfClose, [], by simp [said], report, talks, allData, half, .inl rfl, ?_,
    fun _ => ended⟩
  intro empty reason
  rcases reason with done | ends
  · exact silent (nothing empty) done
  · exact absurd rfl ends

theorem Unclosed.sentence_closed (unclosed : Unclosed word) (silent : word = [] → hostClosed ∨ shutDown) :
    Sentence hostClosed shutDown finished (word ++ [.close]) := by
  obtain ⟨result, talk, halfClose, said, report, talks, allData, half, nothing⟩ := unclosed.parts
  exact ⟨result, talk, halfClose, [.close], by simp [said], report, talks, allData, half, .inr rfl,
    fun empty _ => silent (nothing empty), nofun⟩

theorem Session.Shape.sentence {ctxDone : Bool} (shape : session.Shape ctxDone) :
    Sentence (session.closing = true) (ctxDone = true) (session.worker = .done) session.word := by
  have unfinished (unclosed : Unclosed session.word) (stage : session.worker.stage ≠ .done) :
      Sentence (session.closing = true) (ctxDone = true) (session.worker = .done) session.word := by
    have running : session.worker ≠ .done := by
      intro done
      simp [done, WorkerPhase.stage] at stage
    exact unclosed.sentence (fun _ => (absurd · running)) (absurd · running)
  unfold Session.Shape at shape
  cases stage : session.worker.stage with
  | fresh =>
    simp only [stage] at shape
    exact unfinished (.inl shape.2.1) (by simp [stage])
  | serving =>
    simp only [stage] at shape
    exact unfinished shape.2.unclosed (by simp [stage])
  | leaving | removed =>
    simp only [stage] at shape
    exact unfinished shape.2.2.1 (by simp [stage])
  | done =>
    simp only [stage] at shape
    obtain ⟨_, ⟨⟨_, unclosed, silent⟩, shut⟩ | ⟨_, talk, unclosed, said, silent⟩⟩ := shape
    · exact unclosed.sentence (fun empty _ => silent empty) fun _ => shut
    · rw [said]
      exact unclosed.sentence_closed silent
  | turnedAway =>
    simp only [stage] at shape
    exact unfinished (shape.2.2.imp_right .inl) (by simp [stage])

open Data in
/-- In every reachable state the frames of each connection form a sentence. They follow the OPEN of
the connection, and of two connections with one ID the earlier one has left the table and is done
before the later one says anything. At most `maxConnections` connections are live. -/
theorem relay_grammar (reaches : Reaches Relay.step Relay.initial relay) :
    (∀ (index : Nat) (session : Session), relay.sessions[index]? = some session →
      Sentence (session.closing = true) (relay.shared.ctxDone = true) (session.worker = .done)
        (wordOf index relay.shared.log)) ∧
    relay.shared.log.Pairwise (InOrder (relay.sessions.map Session.id)) ∧
    (∀ index, .opened index ∈ relay.shared.log ↔ index < relay.sessions.length) ∧
    (∀ index frame, .emitted index frame ∈ relay.shared.log → index < relay.sessions.length) ∧
    (∀ (first second : Nat) (earlier later : Session), first < second →
      relay.sessions[first]? = some earlier → relay.sessions[second]? = some later →
      earlier.id = later.id →
      earlier.live = false ∧ (wordOf second relay.shared.log ≠ [] → earlier.worker = .done)) ∧
    relay.liveCount ≤ maxConnections := by
  have ok := reaches.invariant Relay.OK (fun _ _ _ ok stepped => Relay.step_ok ok stepped) Relay.initial_ok
  have table := ok.table
  refine ⟨?_, table.order, ?_, ?_, ?_, table.room⟩
  · intro index session found
    rw [table.words index session found]
    exact (table.ok index session found).shape.sentence
  · exact fun index => ⟨fun member => table.entries _ member, table.opened index⟩
  · exact fun index frame member => table.entries _ member
  · intro first second earlier later before lookupFirst lookupSecond sameId
    refine ⟨table.removed first second earlier later before lookupFirst lookupSecond sameId, ?_⟩
    rw [table.words second later lookupSecond]
    exact table.finished first second earlier later before lookupFirst lookupSecond sameId

/-- A connection whose dial fails, and whose ID the host opens again between its removal and its
CLOSE. -/
def reopening : List Event :=
  [.host (.openConn 7 [] 80), .worker 0 (.dialed false), .worker 0 .checkCtx, .worker 0 .lock,
    .worker 0 (.write true), .worker 0 .cancel, .worker 0 .closeGuest, .worker 0 .lock,
    .worker 0 .delete, .host (.openConn 7 [] 80), .worker 0 .checkClose, .worker 0 (.write true)]

def reopened : Relay :=
  { shared :=
      { ctxDone := false
        connClosed := false
        writeMu := none
        log := [.opened 0, .emitted 0 (.dialResult false), .opened 1, .emitted 0 .close] }
    sessions :=
      [{ Session.new 7 with
          cancelled := true
          live := false
          worker := .done
          word := [.dialResult false, .close] },
        Session.new 7]
    dispatcher := .reading }

theorem reopening_run : Data.run step initial reopening = some reopened := by
  decide

theorem relay_grammar_reopened :
    Data.Reaches Relay.step Relay.initial reopened ∧
      Sentence (false = true) (false = true) (WorkerPhase.done = .done) [.dialResult false, .close] :=
  ⟨⟨reopening, reopening_run⟩, (relay_grammar ⟨reopening, reopening_run⟩).1 0 _ rfl⟩

/-- The frames with the ID of the connection at `index`, from its OPEN to the next OPEN of the
ID. -/
def windowOf (ids : List (BitVec 32)) (index : Nat) (log : List Entry) : List Out :=
  let rest := (log.dropWhile (· ≠ .opened index)).drop 1
  let window := rest.takeWhile fun
    | .opened session => ids[session]? ≠ ids[index]?
    | .emitted _ _ => true
  window.filterMap fun
    | .opened _ => none
    | .emitted session frame => if ids[session]? = ids[index]? then some frame else none

/-- The CLOSE of a connection may follow the next OPEN of its ID, which finds the ID unused. -/
theorem reopened_before_close :
    Data.Reaches Relay.step Relay.initial reopened ∧ reopened.shared.ctxDone = false ∧
      ¬ Sentence False False True (windowOf (reopened.sessions.map Session.id) 0 reopened.shared.log) := by
  refine ⟨⟨reopening, reopening_run⟩, rfl, ?_⟩
  have window : windowOf (reopened.sessions.map Session.id) 0 reopened.shared.log =
      [.dialResult false] := by decide
  rw [window]
  intro ⟨result, talk, halfClose, ending, said, _, _, _, _, ends, _, complete⟩
  rcases ends with rfl | rfl
  · exact complete rfl trivial
  · -- the window does not end with CLOSE
    have last := congrArg List.getLast? said
    simp at last

end BVisor.Ingress
