import BVisor.Ingress.Framing

/-! Runs of `serve` on the bytes of a stream. -/

namespace BVisor.Ingress

open Data List Option Wire

variable {wire next : Wire} {frames later : List HostFrame} {rest pending bytes : List Byte}

/-- What is still to be decoded when `phase` has been reached: the frames `later`, then `rest`. -/
def Phase.Expects (later : List HostFrame) (rest pending : List Byte) : Phase → Prop
  | .length got =>
    got.length < 4 ∧ ∃ bytes, Encoded later bytes ∧ got ++ pending = bytes ++ rest
  | .body size got =>
    got.length < size ∧ minFrameBody ≤ size ∧ size ≤ maxFrameBody ∧
      ∃ lenBuf bytes, lenBuf.length = 4 ∧ ofBigEndian lenBuf = size ∧ Encoded later bytes ∧
        lenBuf ++ (got ++ pending) = bytes ++ rest

theorem Encoded.nil_eq (encoded : Encoded [] bytes) : bytes = [] := by
  obtain ⟨encodings, marshaled, rfl⟩ := encoded
  cases marshaled
  rfl

variable {frame : HostFrame}

theorem Encoded.cons_eq (encoded : Encoded (frame :: later) bytes) (sendable : frame.Sendable) :
    ∃ body after, Framed frame.marshal body ∧ parse body = frame ∧ Encoded later after ∧
      bytes = bigEndian 4 body.length ++ (body ++ after) := by
  obtain ⟨encodings, marshaled, rfl⟩ := encoded
  obtain ⟨body, framed, parsed⟩ := frame.marshal_framed sendable
  rw [mapM_cons, framed.1] at marshaled
  simp only [Option.pure_def, bind_eq_bind, bind_some,
    bind_eq_some_iff, some.injEq] at marshaled
  obtain ⟨others, marshaled, rfl⟩ := marshaled
  exact ⟨body, others.flatten, framed, parsed, ⟨others, marshaled, rfl⟩, by simp⟩

theorem Framed.number {marshaled : Option (List Byte)} {body : List Byte} (framed : Framed marshaled body) :
    ofBigEndian (bigEndian 4 body.length) = body.length := by
  obtain ⟨_, _, high⟩ := framed
  simp only [maxFrameBody, fixedHeaderLen, maxDataChunk] at high
  exact ofBigEndian_bigEndian_of_lt (by omega)

theorem Encoded.length_le (encoded : Encoded (frame :: later) bytes)
    (sendable : frame.Sendable) : 4 ≤ bytes.length := by
  obtain ⟨body, after, _, _, _, rfl⟩ := encoded.cons_eq sendable
  simp

theorem rest_ne_nil {lenBuf : List Byte} (full : lenBuf.length = 4) (stream : lenBuf ++ pending = rest) :
    rest ≠ [] := by
  intro none
  rw [none] at stream
  rw [(append_eq_nil_iff.mp stream).1] at full
  cases full

theorem Defective.ne_nil (defective : Defective rest) : rest ≠ [] := by
  rcases defective with ⟨some, _⟩ | ⟨lenBuf, after, split, full, _⟩
  · exact some
  · exact rest_ne_nil full split.symm

open Phase

theorem Phase.receive_length {got : List Byte} (sendable : ∀ frame ∈ later, frame.Sendable)
    (ends : rest = [] ∨ Defective rest) (full : got.length = 4)
    (encoded : Encoded later bytes) (stream : got ++ pending = bytes ++ rest) :
    if ofBigEndian got < minFrameBody ∨ ofBigEndian got > maxFrameBody then
      later = [] ∧ Defective rest
    else (body (ofBigEndian got) []).Expects later rest pending := by
  cases later with
  | nil =>
    cases encoded.nil_eq
    split
    · exact ⟨rfl, ends.resolve_left (rest_ne_nil full stream)⟩
    rename_i within
    simp only [not_or, Nat.not_lt] at within
    have positive : 0 < ofBigEndian got := Nat.lt_of_lt_of_le (by decide) within.1
    exact ⟨positive, within.1, within.2, got, [], full, rfl, encoded, stream⟩
  | cons frame others =>
    obtain ⟨body, after, framed, _, _, rfl⟩ := encoded.cons_eq (sendable frame mem_cons_self)
    rw [append_assoc] at stream
    obtain ⟨same, _⟩ := append_inj stream (by simp [full])
    have number : ofBigEndian got = body.length := same ▸ framed.number
    have low := framed.2.1
    have high := framed.2.2
    have positive : 0 < ofBigEndian got := by
      rw [number]
      exact Nat.lt_of_lt_of_le (by decide) low
    rw [if_neg (by rw [number]; omega)]
    exact ⟨positive, number ▸ low, number ▸ high, got, _, full, rfl, encoded, by rw [append_assoc]; exact stream⟩

theorem Phase.receive_body {got lenBuf : List Byte} (sendable : ∀ frame ∈ later, frame.Sendable)
    (ends : rest = [] ∨ Defective rest) (lenBufFull : lenBuf.length = 4)
    (full : got.length = ofBigEndian lenBuf) (low : minFrameBody ≤ ofBigEndian lenBuf)
    (high : ofBigEndian lenBuf ≤ maxFrameBody) (encoded : Encoded later bytes)
    (stream : lenBuf ++ (got ++ pending) = bytes ++ rest) :
    (∃ others, later = parse got :: others ∧
      (length []).Expects others rest pending) ∨
      later = [] ∧ parse got = .malformed ∧ Defective rest := by
  cases later with
  | nil =>
    cases encoded.nil_eq
    have defective := ends.resolve_left (rest_ne_nil lenBufFull stream)
    refine .inr ⟨rfl, ?_, defective⟩
    rw [nil_append] at stream
    rcases defective with ⟨_, short⟩ | ⟨lenBuf', after, split, size, wrong⟩
    · rw [← stream, length_append, lenBufFull] at short
      exact absurd (Nat.le_add_right _ _) (Nat.not_le.mpr short)
    rw [split] at stream
    obtain ⟨rfl, rfl⟩ := append_inj stream (by rw [lenBufFull, size])
    have body : (got ++ pending).take (ofBigEndian lenBuf) = got := take_left' full
    rw [body, length_append] at wrong
    rcases wrong with below | above | short | bad
    · omega
    · omega
    · omega
    · exact parse_of_bad bad
  | cons frame others =>
    obtain ⟨body, after, framed, parsed, encodedAfter, rfl⟩ := encoded.cons_eq (sendable frame mem_cons_self)
    simp only [append_assoc] at stream
    obtain ⟨same, stream⟩ := append_inj stream (by simp [lenBufFull])
    have number : ofBigEndian lenBuf = body.length := same ▸ framed.number
    obtain ⟨rfl, unread⟩ := append_inj stream (by rw [full, number])
    exact .inl ⟨others, by rw [parsed], by decide, after, encodedAfter, unread⟩

def Decodes (later : List HostFrame) (rest pending : List Byte) (phase : Phase) :
    Option HostFrame → Prop
  | none => phase.Expects later rest pending
  | some frame =>
    (∃ others, later = frame :: others ∧ phase.Expects others rest pending) ∨
      later = [] ∧ frame = .malformed ∧ Defective rest

variable {phase : Phase} {count : Nat}

theorem Phase.receive_decodes
    (sendable : ∀ frame ∈ later, frame.Sendable) (ends : rest = [] ∨ Defective rest)
    (expects : phase.Expects later rest pending) (wanted : count ≤ phase.wanted)
    (available : count ≤ pending.length) :
    Decodes later rest (pending.drop count) (phase.receive (pending.take count)).1
      (phase.receive (pending.take count)).2 := by
  have cut : pending.take count ++ pending.drop count = pending := take_append_drop ..
  have size : (pending.take count).length = count := by
    rw [length_take]
    omega
  cases phase with
  | length got =>
    obtain ⟨short, bytes, encoded, stream⟩ := expects
    rw [← cut, ← append_assoc] at stream
    simp only [Phase.wanted] at wanted
    simp only [receive]
    by_cases partly : (got ++ pending.take count).length < 4
    · rw [if_pos partly]
      exact ⟨partly, bytes, encoded, stream⟩
    rw [if_neg partly]
    have full : (got ++ pending.take count).length = 4 := by
      rw [length_append, size] at partly ⊢
      omega
    have next := receive_length sendable ends full encoded stream
    split at next
    · rename_i wrong
      rw [if_pos wrong]
      exact .inr ⟨next.1, rfl, next.2⟩
    · rename_i right
      rw [if_neg right]
      exact next
  | body length got =>
    obtain ⟨short, low, high, lenBuf, bytes, lenBufFull, number, encoded, stream⟩ := expects
    rw [← cut, ← append_assoc got] at stream
    simp only [Phase.wanted] at wanted
    simp only [receive]
    by_cases partly : (got ++ pending.take count).length < length
    · rw [if_pos partly]
      exact ⟨partly, low, high, lenBuf, bytes, lenBufFull, number, encoded, stream⟩
    rw [if_neg partly]
    have full : (got ++ pending.take count).length = length := by
      rw [length_append, size] at partly ⊢
      omega
    subst number
    exact receive_body sendable ends lenBufFull full low high encoded stream

variable {relay relay' : Relay}

/-- What stops the dispatcher when it takes a frame, or makes it refuse one. -/
theorem Relay.HostMove.outcome (moved : relay.HostMove frame relay') (reading : relay.dispatcher = .reading) :
    (relay'.dispatcher = .stopped → ¬ frame.Sendable ∨
      ∃ id target port, frame = .openConn id target port ∧ relay.lookup id ≠ none) ∧
    (relay'.dispatcher.refusal ≠ none →
      ∃ id target port, frame = .openConn id target port ∧ maxConnections ≤ relay.liveCount) := by
  cases moved with
  | ignore => simp [reading, Dispatcher.refusal]
  | malformed => exact ⟨fun _ => .inl fun sendable => sendable, fun refusing => absurd rfl refusing⟩
  | reopen used => exact ⟨fun _ => .inr ⟨_, _, _, rfl, used⟩, fun refusing => absurd rfl refusing⟩
  | overLimit unused full => exact ⟨fun stopped => (by cases stopped), fun _ => ⟨_, _, _, rfl, full⟩⟩
  | tooLong long => exact ⟨fun _ => .inl (Nat.not_le.mpr long), fun refusing => absurd rfl refusing⟩
  | opened | queue | close => exact ⟨fun stopped => (by cases stopped), fun refusing => absurd rfl refusing⟩

/-- The dispatcher stops by itself only when it cannot write a refusal. -/
theorem Relay.DispatcherMove.outcome {step : DispatcherStep} (moved : relay.DispatcherMove step relay')
    (notStop : step ≠ .stop) :
    (relay'.dispatcher.refusal ≠ none → relay.dispatcher.refusal ≠ none) ∧
      (relay'.dispatcher = .stopped →
        relay.dispatcher.refusal ≠ none ∧ relay'.shared.ctxDone = true) ∧
      relay.dispatcher ≠ .stopped ∧
      (relay.shared.ctxDone = true → relay'.shared.ctxDone = true) := by
  cases moved with
  | stop => exact absurd rfl notStop
  | lock phase =>
    rw [phase]
    exact ⟨fun _ => nofun, fun stopped => (by cases stopped), nofun, fun done => done⟩
  | abandon phase shut =>
    rw [phase]
    exact ⟨fun _ => nofun, fun _ => ⟨nofun, shut⟩, nofun, fun done => done⟩
  | @write index frame succeeds shared phase written =>
    rw [phase]
    have done := (Shared.write_cases written).2
    rcases done with ⟨rfl, same, _⟩ | ⟨rfl, shut, _⟩
    · simp only [Bool.not_true, Bool.false_eq_true, if_false]
      refine ⟨fun _ => nofun, fun stopped => ?_, nofun, fun done => ?_⟩
      · split at stopped <;> cases stopped
      · split <;> exact same.trans done
    · exact ⟨fun _ => nofun, fun _ => ⟨nofun, shut⟩, nofun, fun _ => shut⟩
  | enqueue phase | drop phase | cancel phase | closeGuest phase =>
    rw [phase]
    exact ⟨fun refusing => absurd rfl refusing, fun stopped => (by cases stopped), nofun, fun done => done⟩

variable {event : Event}

open Relay

theorem Relay.step_ctxDone (ok : relay.OK) (stepped : relay.step event = some relay')
    (others : (∀ frame, event ≠ .host frame) ∧ event ≠ .dispatcher .stop) :
    relay.shared.ctxDone = true → relay'.shared.ctxDone = true := by
  cases move_of_step stepped with
  | @host frame => exact absurd rfl (others.1 frame)
  | dispatcher moved => exact (moved.outcome fun stop => others.2 (by rw [stop])).2.2.2
  | worker found acted => exact (Session.workerStep_ok (ok.table.ok _ _ found) acted).2.ctxDone
  | reader found acted => exact (Session.readerStep_ok (ok.table.ok _ _ found) acted).2.ctxDone
  | shutdown => exact fun _ => rfl
  | closeConn | propagate | shutdownGuest => exact fun done => done

theorem Relay.step_dispatcher (stepped : relay.step event = some relay')
    (others : ∀ step, event ≠ .dispatcher step) (notHost : ∀ frame, event ≠ .host frame) :
    relay'.dispatcher = relay.dispatcher := by
  cases move_of_step stepped with
  | @host frame => exact absurd rfl (notHost frame)
  | @dispatcher step => exact absurd rfl (others step)
  | _ => rfl

/-- What the bytes say about what `serve` returned. -/
def Wire.Explained (wire : Wire) : Outcome → Prop
  | .clean =>
    wire.relay.shared.ctxDone = true ∨ wire.pending = [] ∧ wire.phase = .length []
  | .cutShort => wire.pending = [] ∧ wire.phase ≠ .length []
  | .refused | .readFailed => True

structure Wire.OK (frames : List HostFrame) (rest : List Byte) (wire : Wire) : Prop where
  relay : wire.relay.OK
  bounded : wire.relay.Bounded
  decoded :
    (∃ later, frames = wire.frames ++ later ∧ wire.phase.Expects later rest wire.pending) ∨
      wire.frames = frames ++ [.malformed] ∧ wire.result = some .refused ∧ Defective rest
  running : wire.result = none → wire.relay.dispatcher ≠ .stopped
  stopped : wire.result ≠ none → wire.relay.dispatcher = .stopped
  explained : ∀ outcome, wire.result = some outcome → wire.Explained outcome

theorem Wire.OK.settle (relay : wire.relay.OK) (bounded : wire.relay.Bounded) (runs : wire.result = none)
    (decoded :
      (∃ later, frames = wire.frames ++ later ∧ wire.phase.Expects later rest wire.pending) ∨
        wire.frames = frames ++ [.malformed] ∧ wire.relay.dispatcher = .stopped ∧ Defective rest) :
    wire.settle.OK frames rest := by
  unfold Wire.settle
  split
  · rename_i ends
    refine ⟨relay, bounded, ?_, nofun, fun _ => ends.2, ?_⟩
    · rcases decoded with left | ⟨all, _, defective⟩
      · exact .inl left
      · exact .inr ⟨all, rfl, defective⟩
    · rintro outcome ⟨⟩
      trivial
  rename_i goesOn
  have notStopped : wire.relay.dispatcher ≠ .stopped := fun stopped => goesOn ⟨runs, stopped⟩
  refine ⟨relay, bounded, .inl ?_, fun _ => notStopped, ?_, ?_⟩
  · exact decoded.resolve_right fun wrong => notStopped wrong.2.1
  · exact fun ended => absurd runs ended
  · intro outcome ended
    rw [runs] at ended
    cases ended

theorem Wire.OK.hand (ok : wire.OK frames rest) (reading : wire.Reading)
    (decodes : (∃ others, frames = wire.frames ++ frame :: others ∧
        phase.Expects others rest pending) ∨
      frames = wire.frames ∧ frame = .malformed ∧ Defective rest) :
    ({ wire with phase, pending }.hand frame).OK frames rest := by
  have moved := wire.relay.hostMove frame
  refine Wire.OK.settle (moved.ok ok.relay reading.2) (moved.bounded ok.bounded) reading.1 ?_
  rcases decodes with ⟨others, split, expects⟩ | ⟨all, rfl, defective⟩
  · exact .inl ⟨others, by simp [split], expects⟩
  · exact .inr ⟨by rw [all], rfl, defective⟩

theorem Wire.OK.expects (ok : wire.OK frames rest) (reading : wire.Reading) :
    ∃ later, frames = wire.frames ++ later ∧ wire.phase.Expects later rest wire.pending :=
  ok.decoded.resolve_right fun wrong => by
    rw [reading.1] at wrong
    cases wrong.2.1

theorem Wire.OK.read (sendable : ∀ frame ∈ frames, frame.Sendable)
    (ends : rest = [] ∨ Defective rest) (ok : wire.OK frames rest) (reading : wire.Reading)
    (wanted : count ≤ wire.phase.wanted) (available : count ≤ wire.pending.length) :
    (wire.read count).OK frames rest := by
  obtain ⟨later, split, expects⟩ := ok.expects reading
  have decodes := receive_decodes
    (fun frame member => sendable frame (by rw [split]; exact mem_append_right _ member))
    ends expects wanted available
  unfold Wire.read
  generalize wire.phase.receive (wire.pending.take count) = received at decodes
  obtain ⟨phase, frame | frame⟩ := received
  · refine ⟨ok.relay, ok.bounded, .inl ⟨later, split, decodes⟩, ok.running, ok.stopped, ?_⟩
    intro outcome ended
    rw [reading.1] at ended
    cases ended
  · refine ok.hand reading ?_
    rcases decodes with ⟨others, rfl, expected⟩ | ⟨rfl, wrong, defective⟩
    · exact .inl ⟨others, split, expected⟩
    · exact .inr ⟨by simpa using split, wrong, defective⟩

theorem Wire.OK.finish {outcome : Outcome} (ok : wire.OK frames rest) (reading : wire.Reading)
    (explained : (wire.finish outcome).Explained outcome) :
    (wire.finish outcome).OK frames rest := by
  obtain ⟨later, split, expects⟩ := ok.expects reading
  refine ⟨ok.relay.stop reading.2, ⟨ok.bounded.log, ok.bounded.readers⟩,
    .inl ⟨later, split, expects⟩, nofun, fun _ => rfl, ?_⟩
  rintro same ⟨⟩
  exact explained

theorem Wire.OK.act (ok : wire.OK frames rest) (stepped : wire.relay.step event = some relay')
    (others : (∀ frame, event ≠ .host frame) ∧ event ≠ .dispatcher .stop) :
    ({ wire with relay := relay' }.settle).OK frames rest := by
  have relayOK := step_ok ok.relay stepped
  have bounded := step_bounded ok.relay ok.bounded stepped
  have mono := step_ctxDone ok.relay stepped others
  by_cases running : wire.result = none
  · refine Wire.OK.settle relayOK bounded running ?_
    exact .inl (ok.decoded.resolve_right fun wrong => by simp [running] at wrong)
  have same : relay'.dispatcher = wire.relay.dispatcher := by
    cases event with
    | dispatcher step =>
      have moved := (dispatcherMove_of_step stepped).outcome fun stop => others.2 (by rw [stop])
      exact absurd (ok.stopped running) moved.2.2.1
    | _ => exact step_dispatcher stepped nofun others.1
  unfold Wire.settle
  rw [if_neg fun both => running both.1]
  refine ⟨relayOK, bounded, ok.decoded, fun none => absurd none running,
    fun _ => same.trans (ok.stopped running), ?_⟩
  intro outcome returned
  have explained := ok.explained outcome returned
  cases outcome with
  | clean => exact explained.imp mono fun held => held
  | _ => exact explained

theorem Wire.step_relay (stepped : wire.step (.relay event) = some next) :
    ((∀ frame, event ≠ .host frame) ∧ event ≠ .dispatcher .stop) ∧
      ∃ relay', wire.relay.step event = some relay' ∧
        next = { wire with relay := relay' }.settle := by
  have acts : ∀ result, (wire.relay.step event).map
      (fun relay => { wire with relay }.settle) = some result →
      ∃ relay', wire.relay.step event = some relay' ∧
        result = { wire with relay := relay' }.settle := by
    intro result mapped
    obtain ⟨relay', acted, rfl⟩ := map_eq_some_iff.mp mapped
    exact ⟨relay', acted, rfl⟩
  cases event with
  | host frame => cases stepped
  | dispatcher step =>
    cases step with
    | stop => cases stepped
    | _ => exact ⟨⟨nofun, nofun⟩, acts next stepped⟩
  | _ => exact ⟨⟨nofun, nofun⟩, acts next stepped⟩

theorem Wire.step_ok {event : WireEvent} (sendable : ∀ frame ∈ frames, frame.Sendable)
    (ends : rest = [] ∨ Defective rest) (ok : wire.OK frames rest)
    (stepped : wire.step event = some next) : next.OK frames rest := by
  cases event with
  | read count =>
    simp only [step] at stepped
    split at stepped <;> cases stepped
    rename_i enabled
    obtain ⟨reading, _, wanted, available⟩ := enabled
    exact ok.read sendable ends reading wanted available
  | eof =>
    simp only [step] at stepped
    split at stepped <;> cases stepped
    rename_i enabled
    obtain ⟨reading, empty⟩ := enabled
    apply ok.finish reading
    split
    · rename_i clean
      rcases clean with boundary | done
      · exact .inr ⟨empty, boundary⟩
      · exact .inl done
    · rename_i cut
      exact ⟨empty, (not_or.mp cut).1⟩
  | readFails =>
    simp only [step] at stepped
    split at stepped <;> cases stepped
    rename_i reading
    apply ok.finish reading
    split
    · rename_i done
      exact .inl done
    · trivial
  | relay event =>
    obtain ⟨others, relay', acted, rfl⟩ := step_relay stepped
    exact ok.act acted others

theorem Wire.initial_ok (encoded : Encoded frames bytes) :
    (initial (bytes ++ rest)).OK frames rest where
  relay := Relay.initial_ok
  bounded := ⟨by simp [initial, Relay.initial], by simp [initial, Relay.initial]⟩
  decoded := .inl ⟨frames, rfl, by decide, bytes, encoded, rfl⟩
  running := by simp [initial, Relay.initial]
  stopped := by simp [initial]
  explained := by simp [initial]

theorem Phase.Expects.none_later (sendable : ∀ frame ∈ later, frame.Sendable)
    (expects : phase.Expects later [] []) : later = [] := by
  cases later with
  | nil => rfl
  | cons frame others =>
    exfalso
    have first := sendable frame mem_cons_self
    cases phase with
    | length got =>
      obtain ⟨short, bytes, encoded, stream⟩ := expects
      have long := encoded.length_le first
      simp only [append_nil] at stream
      rw [stream] at short
      omega
    | body size got =>
      obtain ⟨short, _, _, lenBuf, bytes, lenBufFull, rfl, encoded, stream⟩ := expects
      obtain ⟨body, after, framed, _, _, rfl⟩ := encoded.cons_eq first
      simp only [append_nil] at stream
      obtain ⟨same, tail⟩ := append_inj stream (by simp [lenBufFull])
      rw [same, framed.number, tail, length_append] at short
      omega

theorem Phase.Expects.not_defective (expects : (length []).Expects later rest []) :
    ¬ Defective rest := by
  intro defective
  obtain ⟨_, bytes, _, stream⟩ := expects
  exact defective.ne_nil (append_eq_nil_iff.mp stream.symm).2

/-- `serve` is never stuck in a read: it can read on, and at the end of the stream it returns. -/
theorem Wire.progress (reading : wire.Reading) (connected : wire.relay.shared.connClosed = false)
    (wanted : 0 < wire.phase.wanted) :
    ∃ event next, wire.step event = some next ∧
      (next.pending.length < wire.pending.length ∨ next.result ≠ none) := by
  by_cases empty : wire.pending = []
  · exact ⟨.eof, _, if_pos ⟨reading, empty⟩, .inr nofun⟩
  have some : 0 < wire.pending.length := length_pos_iff.mpr empty
  refine ⟨.read 1, wire.read 1, if_pos ⟨reading, connected, wanted, some⟩, .inl ?_⟩
  have unread : (wire.read 1).pending = wire.pending.drop 1 := by
    unfold read
    generalize wire.phase.receive (wire.pending.take 1) = received
    obtain ⟨phase, frame | frame⟩ := received
    · rfl
    · simp only [hand, settle]
      split <;> rfl
  rw [unread, length_drop]
  omega

theorem Phase.Expects.wanted (expects : phase.Expects later rest pending) : 0 < phase.wanted := by
  cases phase <;> exact Nat.sub_pos_of_lt expects.1

/-- A stream is a sequence of frames, up to its end or to the first one that is wrong or
incomplete. -/
theorem stream_splits (stream : List Byte) :
    ∃ frames bytes rest, (∀ frame ∈ frames, frame.Sendable) ∧ Encoded frames bytes ∧
      stream = bytes ++ rest ∧ (rest = [] ∨ Defective rest) := by
  induction size : stream.length using Nat.strongRecOn generalizing stream with
  | ind size ih =>
    by_cases good : stream = [] ∨ Defective stream
    · exact ⟨[], [], stream, by simp, ⟨[], rfl, rfl⟩, rfl, good⟩
    simp only [Defective, not_or, not_and, not_exists, Nat.not_lt] at good
    obtain ⟨some, long, inner⟩ := good
    have head : (stream.take 4).length = 4 := by
      rw [length_take]
      exact Nat.min_eq_left (long some)
    obtain ⟨low, high, full, right⟩ := inner (stream.take 4) (stream.drop 4) (take_append_drop ..).symm head
    let body := (stream.drop 4).take (ofBigEndian (stream.take 4))
    let after := (stream.drop 4).drop (ofBigEndian (stream.take 4))
    have bodySize : body.length = ofBigEndian (stream.take 4) := by
      rw [length_take]
      exact Nat.min_eq_left full
    obtain ⟨sendableFirst, marshaled⟩ :=
      marshal_parse (by rw [bodySize]; exact low) (by rw [bodySize]; exact high) right
    have lenBuf : bigEndian 4 body.length = stream.take 4 := by
      rw [bodySize]
      have number := bigEndian_ofBigEndian (stream.take 4)
      rwa [head] at number
    obtain ⟨frames, bytes, rest, sendable, ⟨encodings, others, rfl⟩, split, ends⟩ :=
      ih after.length (by
        simp only [after, length_drop]
        have := long some
        omega) after rfl
    refine ⟨parse body :: frames, (bigEndian 4 body.length ++ body) ++ encodings.flatten, rest,
      ?_, ⟨(bigEndian 4 body.length ++ body) :: encodings, ?_, rfl⟩, ?_, ends⟩
    · intro frame member
      rcases mem_cons.mp member with rfl | other
      · exact sendableFirst
      · exact sendable frame other
    · rw [mapM_cons, marshaled, others]
      rfl
    · rw [lenBuf, append_assoc, ← split, append_assoc]
      simp only [body, after, take_append_drop]

theorem Wire.reaches_ok {stream : List Byte} (reaches : Reaches step (initial stream) wire) :
    ∃ frames rest, wire.OK frames rest := by
  obtain ⟨frames, bytes, rest, sendable, encoded, rfl, ends⟩ := stream_splits stream
  exact ⟨frames, rest, reaches.invariant (Wire.OK frames rest)
    (fun _ _ _ kept stepped => step_ok sendable ends kept stepped)
    (initial_ok encoded)⟩

/-- The last frame handed over is an OPEN. It was taken in a state of this run of which, with the
ID, `found` holds. -/
def Wire.LastOpen (stream : List Byte) (found : Relay → BitVec 32 → Prop) (wire : Wire) : Prop :=
  ∃ before id target port, Reaches Wire.step (Wire.initial stream) before ∧
    Reaches Wire.step before wire ∧ before.Reading ∧
    wire.frames = before.frames ++ [.openConn id target port] ∧ found before.relay id

/-- What made `dispatch` refuse an OPEN: its ID was live, or there were too many connections and
the refusal was not written, because the relay was shut down before or by the failure to write. -/
def Wire.MayRefuse (wire : Wire) (relay : Relay) (id : BitVec 32) : Prop :=
  relay.lookup id ≠ none ∨ maxConnections ≤ relay.liveCount ∧ wire.relay.shared.ctxDone = true

structure Wire.Caused (stream : List Byte) (wire : Wire) : Prop where
  reached : Reaches Wire.step (Wire.initial stream) wire
  refusing : wire.relay.dispatcher.refusal ≠ none →
    wire.LastOpen stream fun relay _ => maxConnections ≤ relay.liveCount
  refused : wire.result = some .refused → wire.LastOpen stream wire.MayRefuse ∨
    ∃ frame, wire.frames.getLast? = some frame ∧ ¬ frame.Sendable

section Causes

variable {stream : List Byte} {found : Relay → BitVec 32 → Prop}

theorem Wire.LastOpen.step {event : WireEvent} {more : Relay → BitVec 32 → Prop}
    (opened : wire.LastOpen stream found) (stepped : wire.step event = some next)
    (same : next.frames = wire.frames) (implied : ∀ relay id, found relay id → more relay id) :
    next.LastOpen stream more := by
  obtain ⟨before, id, target, port, reached, later, reading, last, holds⟩ := opened
  exact ⟨before, id, target, port, reached, later.tail stepped, reading, same.trans last,
    implied before.relay id holds⟩

theorem Wire.settle_frames : wire.settle.frames = wire.frames := by
  unfold settle
  split <;> rfl

theorem Wire.settle_relay : wire.settle.relay = wire.relay := by
  unfold settle
  split <;> rfl

theorem Wire.settle_refused (refused : wire.settle.result = some .refused) :
    wire.result = some .refused ∨ wire.result = none ∧ wire.relay.dispatcher = .stopped := by
  unfold settle at refused
  split at refused
  · rename_i ends
    exact .inr ends
  · exact .inl refused

theorem Wire.Caused.hand (caused : wire.Caused stream)
    (reading : wire.Reading) (stepped : wire.step (.read count) = some next)
    (handed : next = { wire with phase, pending }.hand frame) : next.Caused stream := by
  have outcome := (wire.relay.hostMove frame).outcome reading.2
  have frames : next.frames = wire.frames ++ [frame] := by rw [handed, Wire.hand, settle_frames]
  have relay : next.relay = wire.relay.dispatch frame := by rw [handed, Wire.hand, settle_relay]
  have opened {found : Relay → BitVec 32 → Prop}
      (isOpen : ∃ id target port, frame = .openConn id target port ∧ found wire.relay id) :
      next.LastOpen stream found := by
    obtain ⟨id, target, port, rfl, holds⟩ := isOpen
    exact ⟨wire, id, target, port, caused.reached, ⟨[.read count], run_cons stepped⟩, reading, frames, holds⟩
  refine ⟨caused.reached.tail stepped, fun refusing => opened (outcome.2 (relay ▸ refusing)), fun refused => ?_⟩
  rw [handed] at refused
  obtain ⟨-, stopped⟩ := (settle_refused refused).resolve_left fun already => by
    simp [reading.1] at already
  rcases outcome.1 stopped with wrong | ⟨id, target, port, isOpen, used⟩
  · exact .inr ⟨frame, by rw [frames, getLast?_concat], wrong⟩
  · exact .inl (opened ⟨id, target, port, isOpen, .inl used⟩)

theorem Wire.Caused.step {event : WireEvent} (caused : wire.Caused stream)
    (stepped : wire.step event = some next) : next.Caused stream := by
  obtain ⟨_, _, ok⟩ := reaches_ok caused.reached
  have finished (outcome : Outcome) (other : outcome ≠ .refused) (ends : next = wire.finish outcome) :
      next.Caused stream := by
    refine ⟨caused.reached.tail stepped, fun refusing => ?_, fun refused => ?_⟩
    · rw [ends] at refusing
      exact absurd rfl refusing
    · rw [ends] at refused
      exact absurd (Option.some.inj refused) other
  cases event with
  | read count =>
    have whole := stepped
    simp only [Wire.step] at stepped
    split at stepped <;> cases stepped
    rename_i enabled
    have reading := enabled.1
    generalize taken : wire.phase.receive (wire.pending.take count) = received
    obtain ⟨phase, none | frame⟩ := received
    · have read : wire.read count = { wire with phase, pending := wire.pending.drop count } := by
        simp only [Wire.read, taken]
      rw [read] at whole ⊢
      refine ⟨caused.reached.tail whole, fun refusing => ?_, fun refused => ?_⟩
      · simp [reading.2, Dispatcher.refusal] at refusing
      · simp [reading.1] at refused
    · have read : wire.read count = { wire with phase, pending := wire.pending.drop count }.hand frame := by
        simp only [Wire.read, taken]
      exact caused.hand reading whole read
  | eof | readFails =>
    simp only [Wire.step] at stepped
    split at stepped <;> cases stepped
    exact finished _ (by split <;> simp) rfl
  | relay event =>
    obtain ⟨others, relay', acted, same⟩ := step_relay stepped
    have frames : next.frames = wire.frames := by rw [same, settle_frames]
    have relay : next.relay = relay' := by rw [same, settle_relay]
    have mono := step_ctxDone ok.relay acted others
    have moves : relay'.dispatcher = wire.relay.dispatcher ∨
        (relay'.dispatcher.refusal ≠ none → wire.relay.dispatcher.refusal ≠ none) ∧
        (relay'.dispatcher = .stopped → wire.relay.dispatcher.refusal ≠ none ∧ relay'.shared.ctxDone = true) := by
      cases event with
      | dispatcher step =>
        have moved := (dispatcherMove_of_step acted).outcome fun stop => others.2 (by rw [stop])
        exact .inr ⟨moved.1, moved.2.1⟩
      | _ => exact .inl (step_dispatcher acted (fun _ same => by cases same) others.1)
    refine ⟨caused.reached.tail stepped, fun refusing => ?_, fun refused => ?_⟩
    · rw [relay] at refusing
      have before : wire.relay.dispatcher.refusal ≠ none := by
        rcases moves with same | moved
        · exact same ▸ refusing
        · exact moved.1 refusing
      exact (caused.refusing before).step stepped frames fun _ _ full => full
    · rw [same] at refused
      rcases settle_refused refused with already | ⟨running, stopped⟩
      · refine (caused.refused already).imp (fun opened => ?_) fun wrong => frames ▸ wrong
        refine opened.step stepped frames fun other id cause => ?_
        exact cause.imp (fun used => used) fun both => ⟨both.1, relay ▸ mono both.2⟩
      · rcases moves with same | moved
        · exact absurd (same ▸ stopped) (ok.running running)
        · obtain ⟨refusing, done⟩ := moved.2 stopped
          exact .inl ((caused.refusing refusing).step stepped frames fun _ _ full => .inr ⟨full, relay ▸ done⟩)

theorem Wire.reaches_caused (reaches : Reaches step (initial stream) wire) : wire.Caused stream :=
  reaches.invariant (Wire.Caused stream) (fun _ _ _ caused stepped => caused.step stepped)
    ⟨⟨[], rfl⟩, fun refusing => absurd rfl refusing, nofun⟩

end Causes

theorem Wire.OK.wanted (ok : wire.OK frames rest) (reading : wire.Reading) : 0 < wire.phase.wanted := by
  obtain ⟨_, _, expects⟩ := ok.expects reading
  exact expects.wanted

theorem Wire.OK.decodes_all (sendable : ∀ frame ∈ frames, frame.Sendable) (ok : wire.OK frames []) :
    wire.frames <+: frames ∧ (wire.pending = [] → wire.frames = frames) ∧
      ∀ outcome, wire.result = some outcome →
        (outcome = .clean → wire.relay.shared.ctxDone = true ∨ wire.frames = frames) ∧
        outcome ≠ .cutShort := by
  obtain ⟨later, split, expects⟩ := ok.decoded.resolve_right fun wrong => wrong.2.2.ne_nil rfl
  have laterSendable : ∀ frame ∈ later, frame.Sendable :=
    fun frame member => sendable frame (by rw [split]; exact mem_append_right _ member)
  have all : wire.pending = [] → wire.frames = frames := by
    intro empty
    rw [empty] at expects
    rw [split, expects.none_later laterSendable, append_nil]
  refine ⟨⟨later, split.symm⟩, all, ?_⟩
  intro outcome ended
  have explained := ok.explained outcome ended
  refine ⟨?_, ?_⟩
  · rintro rfl
    exact explained.imp (fun done => done) fun clean => all clean.1
  · rintro rfl
    obtain ⟨empty, inside⟩ := explained
    rw [empty] at expects
    have none := expects.none_later laterSendable
    subst none
    cases phase : wire.phase with
    | length got =>
      rw [phase] at expects inside
      obtain ⟨_, bytes, encoded, stream⟩ := expects
      cases encoded.nil_eq
      simp only [append_nil] at stream
      exact inside (by rw [stream])
    | body size got =>
      rw [phase] at expects
      obtain ⟨_, _, _, lenBuf, bytes, full, _, encoded, stream⟩ := expects
      cases encoded.nil_eq
      exact rest_ne_nil full stream rfl

/-- `serve` on a stream of frames, cut into reads in any way. If nothing else follows, the frames
are decoded in order, and all of them unless the relay is shut down, a read fails or the last frame
was an OPEN that may be refused. If a wrong or incomplete frame follows, nothing of it is acted upon
and `serve` returns an error unless the relay is shut down. `serve` is never stuck in a read, and
whatever the relay writes is framed within the same bounds. -/
theorem wire_framing (frames : List HostFrame) (sendable : ∀ frame ∈ frames, frame.Sendable)
    (bytes rest : List Byte) (encoded : Encoded frames bytes) (wire : Wire)
    (reaches : Reaches Wire.step (Wire.initial (bytes ++ rest)) wire) :
    (rest = [] →
      wire.frames <+: frames ∧ (wire.pending = [] → wire.frames = frames) ∧
        ∀ outcome, wire.result = some outcome →
          (outcome = .clean → wire.relay.shared.ctxDone = true ∨ wire.frames = frames) ∧
          (outcome = .refused → wire.LastOpen (bytes ++ rest) wire.MayRefuse) ∧
          outcome ≠ .cutShort) ∧
    (Defective rest →
      (wire.frames <+: frames ∨
        wire.frames = frames ++ [.malformed] ∧ wire.result = some .refused) ∧
        ∀ outcome, wire.result = some outcome →
          outcome ≠ .clean ∨ wire.relay.shared.ctxDone = true) ∧
    (wire.Reading → wire.relay.shared.connClosed = false →
      ∃ event next, wire.step event = some next ∧
        (next.pending.length < wire.pending.length ∨ next.result ≠ none)) ∧
    ∀ index frame, .emitted index frame ∈ wire.relay.shared.log →
      ∀ id, ∃ body, Framed (frame.marshal id) body := by
  have kept : rest = [] ∨ Defective rest → wire.OK frames rest := fun ends =>
    reaches.invariant (Wire.OK frames rest)
      (fun _ _ _ kept stepped => Wire.step_ok sendable ends kept stepped)
      (Wire.initial_ok encoded)
  obtain ⟨_, _, anyway⟩ := Wire.reaches_ok reaches
  refine ⟨?_, ?_, ?_, ?_⟩
  · intro ends
    have ok := kept (.inl ends)
    subst ends
    obtain ⟨decoded, all, explained⟩ := ok.decodes_all sendable
    refine ⟨decoded, all, fun outcome ended => ⟨(explained outcome ended).1, ?_, (explained outcome ended).2⟩⟩
    rintro rfl
    refine ((Wire.reaches_caused reaches).refused ended).resolve_right ?_
    rintro ⟨frame, last, wrong⟩
    exact wrong (sendable frame (decoded.subset (mem_of_getLast? last)))
  · intro defective
    have ok := kept (.inr defective)
    refine ⟨?_, ?_⟩
    · exact ok.decoded.imp (fun ⟨later, split, _⟩ => ⟨later, split.symm⟩) fun wrong => ⟨wrong.1, wrong.2.1⟩
    · intro outcome ended
      cases outcome with
      | clean =>
        refine .inr ((ok.explained .clean ended).resolve_right fun boundary => ?_)
        obtain ⟨later, _, expects⟩ := ok.decoded.resolve_right fun wrong => by
          rw [ended] at wrong
          cases wrong.2.1
        rw [boundary.1, boundary.2] at expects
        exact expects.not_defective defective
      | _ => exact .inl nofun
  · exact fun reading connected => Wire.progress reading connected (anyway.wanted reading)
  · intro index frame emitted id
    exact Out.marshal_framed (anyway.bounded.log index frame emitted) id

def bytesOf (frames : List HostFrame) : List Byte :=
  (frames.filterMap HostFrame.marshal).flatten

def dataThenClose : List HostFrame := [.data 7 [1, 2], .close 7]

/-- Both frames decoded, from reads that cut through lengths and bodies. -/
def bothRead : Wire :=
  { Wire.initial [] with frames := dataThenClose }

theorem wire_framing_bothRead :
    Reaches Wire.step (Wire.initial (bytesOf dataThenClose ++ [])) bothRead ∧
      bothRead.frames = dataThenClose := by
  have reaches : Reaches Wire.step (Wire.initial (bytesOf dataThenClose ++ [])) bothRead :=
    ⟨[.read 3, .read 1, .read 5, .read 3, .read 0, .read 4, .read 6], by decide⟩
  refine ⟨reaches, ((wire_framing dataThenClose ?_ (bytesOf dataThenClose) [] ?_ bothRead reaches).1 rfl).2.1 rfl⟩
  · simp [dataThenClose, HostFrame.Sendable, maxDataChunk]
  · exact ⟨dataThenClose.filterMap HostFrame.marshal, by decide, rfl⟩

/-- The second OPEN of a live connection ID. -/
def reopening7 : List HostFrame :=
  [.openConn 7 (List.replicate 16 0) 80, .openConn 7 (List.replicate 16 0) 80, .close 7]

def reopenRefused : Wire :=
  { relay := Relay.initial.openSession (.new 7) .stopped
    phase := .length []
    pending := bytesOf [.close 7]
    frames := reopening7.take 2
    result := some .refused }

/-- A stream that ends inside a frame after the relay has been shut down. -/
def cutWhenShut : Wire :=
  { relay :=
      { Relay.initial with
        shared := { Relay.initial.shared with ctxDone := true }
        dispatcher := .stopped }
    phase := .length [0]
    pending := []
    frames := []
    result := some .clean }

theorem reopened_not_decoded :
    (Encoded reopening7 (bytesOf reopening7) ∧
      Reaches Wire.step (Wire.initial (bytesOf reopening7)) reopenRefused ∧
      reopenRefused.relay.shared.ctxDone = false ∧ reopenRefused.result = some .refused ∧
      reopenRefused.frames ≠ reopening7) ∧
    Defective [0] ∧ Reaches Wire.step (Wire.initial [0]) cutWhenShut ∧
      cutWhenShut.result = some .clean := by
  refine ⟨⟨⟨reopening7.filterMap HostFrame.marshal, by decide, rfl⟩,
    ⟨[.read 4, .read 24, .read 4, .read 24], by decide⟩, rfl, rfl, by decide⟩,
    .inl (by decide), ⟨[.read 1, .relay .shutdown, .eof], by decide⟩, rfl⟩

/-- However a stream is cut into reads, and whatever happens in between, `serve` decodes the same frames. -/
theorem decoding_ignores_cuts {stream : List Byte} (one : Reaches Wire.step (Wire.initial stream) wire)
    (other : Reaches Wire.step (Wire.initial stream) next) :
    wire.frames <+: next.frames ∨ next.frames <+: wire.frames := by
  obtain ⟨frames, bytes, rest, sendable, encoded, rfl, ends⟩ := stream_splits stream
  have decoded {wire : Wire} (reaches : Reaches Wire.step (Wire.initial (bytes ++ rest)) wire) :
      wire.frames <+: frames ++ [.malformed] := by
    have ok := reaches.invariant (Wire.OK frames rest)
      (fun _ _ _ kept stepped => Wire.step_ok sendable ends kept stepped) (Wire.initial_ok encoded)
    rcases ok.decoded with ⟨later, rfl, _⟩ | ⟨all, _⟩
    · rw [append_assoc]
      exact prefix_append ..
    · rw [all]
  exact prefix_or_prefix_of_prefix (decoded one) (decoded other)

/-- One run reads through lengths and bodies; the other reads whole ones, is shut down after the first
frame and comes to the end of the stream. -/
theorem decoding_ignores_cuts_dataThenClose :
    ∃ shut, Reaches Wire.step (Wire.initial (bytesOf dataThenClose)) bothRead ∧
      Reaches Wire.step (Wire.initial (bytesOf dataThenClose)) shut ∧
      shut.result = some .clean ∧ shut.frames = dataThenClose ∧
      (bothRead.frames <+: shut.frames ∨ shut.frames <+: bothRead.frames) := by
  have pieces : Reaches Wire.step (Wire.initial (bytesOf dataThenClose)) bothRead :=
    ⟨[.read 3, .read 1, .read 5, .read 3, .read 4, .read 6], by decide⟩
  have whole : run Wire.step (Wire.initial (bytesOf dataThenClose))
      [.read 4, .read 8, .relay .shutdown, .read 4, .read 6, .eof] =
    some ({ bothRead with
      relay := { bothRead.relay with shared := { bothRead.relay.shared with ctxDone := true } } }.finish .clean) := by
    decide
  exact ⟨_, pieces, ⟨_, whole⟩, rfl, rfl, decoding_ignores_cuts pieces ⟨_, whole⟩⟩

end BVisor.Ingress
