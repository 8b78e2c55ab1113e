import BVisor.Tcp.Streaming

/-! What a connection guarantees: ACKs remove what they acknowledge, packets carry the stream, and a
stream that is to be classified is held until it is allowed. The cork timer is the exception: it
numbers `writeNext` anew even if that segment has a number already. -/

namespace BVisor.Tcp

open Option hiding map_inj_right

open Data Seqnum
open List hiding after

variable {tree : OrderedTree SACKBlock} {setup : Setup} {e : Endpoint tree}

/-! Acknowledgements. -/

def Contiguous (start : Seqnum) : List OutgoingSegment → Seqnum → Prop
  | [], stop => start = stop
  | seg :: rest, stop =>
    seg.sequenceNumber = start ∧
      Contiguous (start + BitVec.ofNat 32 seg.logicalLen) rest stop

/-- The write list begins with the segments that were sent, which cover the numbers from `sndUna` to
`sndNxt`; those that follow were not sent, and have no other number than `sndNxt`. -/
structure Sender.Covers (s : Sender tree) (sent rest : List OutgoingSegment) : Prop where
  list : s.writeList = sent ++ rest
  transmitted : ∀ seg ∈ sent, seg.xmitCount ≠ 0
  contiguous : Contiguous s.space.sndUna sent s.space.sndNxt
  exactly : (sent.map OutgoingSegment.logicalLen).sum = (Seqnum.size s.space.sndUna s.space.sndNxt).toNat
  unsent : ∀ seg ∈ rest, seg.xmitCount = 0
  numbered : ∀ seg ∈ rest, seg.isAssignedSequenceNumber = true → seg.sequenceNumber = s.space.sndNxt

variable {base : Seqnum}

theorem Sent.contiguous {start stop : Nat} {segments : List OutgoingSegment}
    (sent : Sent base start segments stop) :
    Contiguous (after base start) segments (after base stop) ∧
      start + (segments.map OutgoingSegment.logicalLen).sum = stop := by
  induction segments generalizing start with
  | nil =>
    obtain rfl : start = stop := sent
    exact ⟨rfl, rfl⟩
  | cons seg rest ih =>
    obtain ⟨sentAt, others⟩ := sent
    obtain ⟨contiguous, total⟩ := ih others
    have length := sentAt.logicalLen_eq
    rw [← length] at contiguous total
    refine ⟨⟨sentAt.number, ?_⟩, ?_⟩
    · rw [after_add]
      exact contiguous
    · rw [map_cons, sum_cons, ← total, Nat.add_assoc]

variable {stream : List (Option Byte)} {s : Sender tree} {packet : Packet} {position : Nat} {α : Type}
  {una : Nat} {result : Except Panic α}

theorem Sender.Sound.covers (sound : s.Sound base stream una) :
    ∃ sent rest, s.Covers sent rest := by
  obtain ⟨nxt, sent, rest, laid, _, _⟩ := sound
  obtain ⟨contiguous, total⟩ := laid.queue.sent.contiguous
  refine ⟨sent, rest, laid.list, laid.queue.sent.xmitCount, ?_, ?_, laid.queue.waiting.xmitCount, ?_⟩
  · rw [laid.sndUna, laid.sndNxt]
    exact contiguous
  · rw [laid.sndUna, laid.sndNxt, size_after laid.queue.sent.le laid.close]
    omega
  · intro seg member assigned
    have waiting := laid.queue.waiting
    cases rest with
    | nil => cases member
    | cons first others =>
      rcases mem_cons.mp member with rfl | member
      · rw [(waiting.1.numbered assigned).number, laid.sndNxt]
      · rw [(waiting.2 seg member).2] at assigned
        cases assigned

theorem Sender.Sound.units (sound : s.Sound base stream una) :
    units s.writeList = stream.drop una ∧ s.space.sndUna = after base una := by
  obtain ⟨nxt, sent, rest, laid, _, _⟩ := sound
  rw [laid.list]
  exact ⟨laid.queue.holds.content, laid.sndUna⟩

/-- In every state that a run of orderly steps reaches, and for every orderly segment, the sender does
not panic, removes from its list what is acknowledged, and leaves a list that covers what was sent. -/
theorem handleRcvdSegment_removes_acked (lawful : tree.Lawful sackBlockLess) (setup : Setup)
    (e : Endpoint tree) (reaches : Reaches Endpoint.orderlyStep (.initial setup) e)
    (active : e.terminated = false) (ack : Ack) (input : Sender.AckInput) (orderly : e.snd.space.Orderly ack) :
    ∃ s, e.snd.handleRcvdSegment ack input = .ok s ∧
      units s.writeList = (units e.snd.writeList).drop (Seqnum.size e.snd.space.sndUna s.space.sndUna).toNat ∧
      ∃ sent rest, s.Covers sent rest := by
  obtain ⟨una, sound⟩ := (Endpoint.reaches_ok lawful reaches).streams.active active
  obtain ⟨s, acked, handles, sound', few, _⟩ := Sender.handleRcvdSegment_exists lawful sound orderly input
  obtain ⟨before, sndUna⟩ := sound.units
  obtain ⟨after, sndUna'⟩ := sound'.units
  refine ⟨s, handles, ?_, sound'.covers⟩
  rw [before, after, sndUna, sndUna', size_after (Nat.le_add_right _ _) (by omega),
    Nat.add_sub_cancel_left, drop_drop]

def sampleSetup (window : BitVec 16) (maxPayloadSize : Fin 100) (requireEgressL7 : Bool) : Setup :=
  { iss := 99
    window
    windowScale := 0
    sndWndScale := 0
    sackPermitted := false
    rack := false
    maxRetries := 15
    maxPayloadSize := maxPayloadSize.val + 1
    gso := false
    gsoNone := true
    gsoLimit := 100
    requireEgressL7
    hasPayload := Nat.succ_pos _
    smallPayload := by omega
    hasGsoLimit := by decide
    smallGsoLimit := by decide }

def sampleInput (recovery data : Congestion) : Sender.AckInput :=
  { reord := false, calm := true, elapsed := fun _ => false, recovery, data }

abbrev SampleEndpoint : Type := Endpoint (sortedList sackBlockLess)

/-- Three writes under TCP_CORK, of which the last waits, and an ACK in the middle of the first. -/
def sampleWrites : List Endpoint.Event :=
  [.setCorkOption true ⟨0, 10⟩ true, .write [1, 2, 3, 4] .allowed ⟨0, 10⟩ true,
    .write [5, 6, 7, 8] .allowed ⟨1, 10⟩ true, .write [9] .allowed ⟨2, 10⟩ true]

theorem handleRcvdSegment_removes_acked_part :
    ∃ e : SampleEndpoint, run Endpoint.orderlyStep (.initial (sampleSetup 1000 3 false))
        sampleWrites = some e ∧
      ∃ s, e.snd.handleRcvdSegment (SendSpace.sampleAck 102 []) (sampleInput ⟨0, 0⟩ ⟨2, 2⟩) = .ok s ∧
        units s.writeList = (units e.snd.writeList).drop (Seqnum.size e.snd.space.sndUna s.space.sndUna).toNat ∧
        ∃ sent rest, s.Covers sent rest := by
  have runs : ((run Endpoint.orderlyStep
      (.initial (sampleSetup 1000 3 false) : SampleEndpoint) sampleWrites).map fun e =>
        (e.terminated, e.snd.space.sackPermitted)) = some (false, false) := by decide
  obtain ⟨e, ran, flags⟩ := map_eq_some_iff.mp runs
  obtain ⟨active, permitted⟩ := Prod.mk.inj flags
  refine ⟨e, ran, handleRcvdSegment_removes_acked (sortedList_lawful sackBlockLess) _ e ⟨_, ran⟩ active _ _ ?_⟩
  intro permits
  rw [permitted] at permits
  cases permits

def panic? {α : Type} : Except Panic α → Option Panic
  | .error panic => some panic
  | .ok _ => none

theorem eq_error_of_panic {panic : Panic}
    (panics : panic? result = some panic) : result = .error panic := by
  cases result with
  | error reason =>
    cases panics
    rfl
  | ok _ => cases panics

theorem eq_ok_of_toOption {value : α}
    (returns : result.toOption = some value) : result = .ok value := by
  cases result with
  | error _ => cases returns
  | ok _ =>
    cases returns
    rfl

theorem Sender.Covers.front {sent rest : List OutgoingSegment}
    (covers : s.Covers sent rest) {seg : OutgoingSegment} (front : s.front? = some seg)
    (unsent : seg.xmitCount = 0) : s.space.sndUna = s.space.sndNxt := by
  cases sent with
  | nil => exact covers.contiguous
  | cons first others =>
    unfold front? at front
    rw [covers.list] at front
    cases front
    exact absurd unsent (covers.transmitted seg mem_cons_self)

/-- After a timeout `writeNext` is a segment that was sent. The cork timer gives it the next number and
it is sent as new data. -/
def renumbered : List Endpoint.Event :=
  sampleWrites ++ [.retransmitTimer false ⟨0, 1⟩ true, .corkTimer ⟨1, 1⟩ true,
    .receive (SendSpace.sampleAck 104 []) (sampleInput ⟨0, 0⟩ ⟨0, 2⟩)]

/-- A SACK block that ends 2 ^ 31 after the window is taken for one in flight; later it covers data that
was not sent, which is then passed over. -/
def reversedBlock : List Endpoint.Event :=
  [.receive (SendSpace.sampleAck 100 [⟨104, 100 + 2 ^ 31⟩]) (sampleInput ⟨0, 0⟩ ⟨0, 1⟩),
    .write [1, 2, 3, 4, 5, 6] .allowed ⟨0, 1⟩ true, .write [7, 8, 9] .allowed ⟨1, 2⟩ true]

/-- An ACK of a segment that was renumbered finds the list empty, and after a reversed block an ACK
leaves a list that starts with unsent data. -/
theorem acked_not_covered :
    (∃ e : SampleEndpoint, Reaches Endpoint.step (.initial (sampleSetup 1000 3 false)) e ∧
      e.snd.handleRcvdSegment (SendSpace.sampleAck 112 []) (sampleInput ⟨0, 0⟩ ⟨0, 3⟩) =
        .error .emptyWriteList) ∧
    ∃ e : SampleEndpoint,
      Reaches Endpoint.step (.initial { sampleSetup 1000 3 false with sackPermitted := true }) e ∧
      ∃ s, e.snd.handleRcvdSegment (SendSpace.sampleAck 104 []) (sampleInput ⟨0, 0⟩ ⟨0, 0⟩) = .ok s ∧
        ¬∃ sent rest, s.Covers sent rest := by
  constructor
  · have runs : ((run Endpoint.step (.initial (sampleSetup 1000 3 false) : SampleEndpoint)
        renumbered).map fun e =>
        panic? (e.snd.handleRcvdSegment (SendSpace.sampleAck 112 [])
          (sampleInput ⟨0, 0⟩ ⟨0, 3⟩))) = some (some .emptyWriteList) := by decide
    obtain ⟨e, ran, panics⟩ := map_eq_some_iff.mp runs
    exact ⟨e, ⟨_, ran⟩, eq_error_of_panic panics⟩
  · have runs : ((run Endpoint.step
        (.initial { sampleSetup 1000 3 false with sackPermitted := true } : SampleEndpoint)
        reversedBlock).map fun e =>
        (e.snd.handleRcvdSegment (SendSpace.sampleAck 104 [])
          (sampleInput ⟨0, 0⟩ ⟨0, 0⟩)).toOption.map fun s =>
            (s.front?, s.space.sndUna, s.space.sndNxt)) =
        some (some (some ⟨104, ⟨true, true, false⟩, [5, 6], 0, false⟩, 104, 107)) := by decide
    obtain ⟨e, ran, state⟩ := map_eq_some_iff.mp runs
    obtain ⟨s, handles, state⟩ := map_eq_some_iff.mp state
    obtain ⟨front, numbers⟩ := Prod.mk.inj state
    obtain ⟨sndUna, sndNxt⟩ := Prod.mk.inj numbers
    refine ⟨e, ⟨_, ran⟩, s, eq_ok_of_toOption handles, ?_⟩
    rintro ⟨sent, rest, covers⟩
    have same := covers.front front rfl
    rw [sndUna, sndNxt] at same
    exact absurd same (by decide)

/-! The stream. -/

/-- The packet's payload is what the application has written at the positions of its numbers. -/
def Packet.Carries (packet : Packet) (base : Seqnum) (written : List Byte) : Prop :=
  ∃ position, packet.seq = after base position ∧
    (written.drop position).take packet.payload.length = packet.payload

theorem take_of_units {payload written : List Byte} {ends : List (Option Byte)}
    (marks : ∀ unit ∈ ends, unit = none) (content : payload.map some <+: written.map some ++ ends) :
    written.take payload.length = payload := by
  have inside : payload.length ≤ written.length := by
    apply Nat.le_of_not_lt
    intro beyond
    have same := prefix_iff_eq_take.mp content
    rw [length_map, take_append, take_of_length_le (by simp; omega)] at same
    have length := congrArg List.length same
    simp only [length_append, length_map] at length
    cases rest : ends.take (payload.length - (written.map some).length) with
    | nil =>
      rw [length_map] at rest
      rw [rest, length_nil] at length
      omega
    | cons unit others =>
      have member : unit ∈ ends := mem_of_mem_take (by rw [rest]; exact mem_cons_self)
      have inPayload : unit ∈ payload.map some := by
        rw [same, rest]
        simp
      rw [marks unit member] at inPayload
      simp at inPayload
  have shorter : payload.map some <+: written.map some :=
    prefix_of_prefix_length_le content (prefix_append _ _) (by simp; omega)
  have same := prefix_iff_eq_take.mp shorter
  rw [length_map, ← map_take] at same
  exact ((map_inj_right fun _ _ => Option.some.inj).mp same).symm

theorem Packet.carries_of_units
    (number : packet.seq = after base position) (data : packet.payload ≠ [])
    (content : packet.units <+: e.input.drop position) : packet.Carries base e.written := by
  refine ⟨position, number, ?_⟩
  unfold Packet.units at content
  rw [if_neg data, Endpoint.input, drop_append, ← map_drop] at content
  apply take_of_units _ content
  intro unit member
  have inEnds := mem_of_mem_drop member
  split at inEnds
  · exact mem_singleton.mp inEnds
  · cases inEnds

/-- In every state that a run of orderly steps reaches, every packet with data that was sent carries
the stream, other than zero window probes. -/
theorem wire_carries_stream (lawful : tree.Lawful sackBlockLess) (setup : Setup)
    (e : Endpoint tree) (reaches : Reaches Endpoint.orderlyStep (.initial setup) e) :
    ∀ packet ∈ e.snd.wire, packet.zeroWindowProbe = false → packet.payload ≠ [] →
      packet.Carries (setup.iss + 1) e.written := by
  intro packet member noProbe data
  obtain ⟨mark, emitted⟩ := (Endpoint.reaches_ok lawful reaches).streams.emitted
  obtain ⟨position, number, content⟩ := emitted.carries member noProbe
  exact Packet.carries_of_units number data content

theorem wire_carries_stream_resent :
    ∃ e : SampleEndpoint, Reaches Endpoint.orderlyStep (.initial (sampleSetup 1000 3 false)) e ∧
      e.snd.wire.map Packet.payload = [[1, 2, 3, 4], [5, 6, 7, 8], [1, 2, 3, 4]] ∧
      ∀ packet ∈ e.snd.wire, packet.zeroWindowProbe = false → packet.payload ≠ [] →
        packet.Carries ((sampleSetup 1000 3 false).iss + 1) e.written := by
  have runs : ((run Endpoint.orderlyStep (.initial (sampleSetup 1000 3 false) : SampleEndpoint)
      (sampleWrites ++ [.retransmitTimer false ⟨0, 1⟩ true])).map fun e =>
        e.snd.wire.map Packet.payload) =
      some [[1, 2, 3, 4], [5, 6, 7, 8], [1, 2, 3, 4]] := by decide
  obtain ⟨e, ran, sent⟩ := map_eq_some_iff.mp runs
  exact ⟨e, ⟨_, ran⟩, sent, wire_carries_stream (sortedList_lawful sackBlockLess) _ e ⟨_, ran⟩⟩

/-- A stream of less than 2 ^ 32 bytes has one position for a number. -/
theorem Packet.Carries.content {written : List Byte}
    (carries : packet.Carries base written) (data : packet.payload ≠ [])
    (number : packet.seq = after base position) (near : position < 2 ^ 32) (few : written.length < 2 ^ 32) :
    (written.drop position).take packet.payload.length = packet.payload := by
  obtain ⟨other, same, content⟩ := carries
  have inside : other < 2 ^ 32 := by
    apply Nat.lt_of_not_le
    intro beyond
    rw [drop_of_length_le (by omega), take_nil] at content
    exact data content.symm
  obtain rfl : other = position := (after_inj (by omega) (by omega)).mp (same.symm.trans number)
  exact content

/-- Some run sends data that is not what the stream holds there. -/
def Setup.Strays (setup : Setup) (zeroWindowProbe : Bool) : Prop :=
  ∃ e : SampleEndpoint, Reaches Endpoint.step (.initial setup) e ∧
    ∃ packet ∈ e.snd.wire, packet.zeroWindowProbe = zeroWindowProbe ∧ packet.payload ≠ [] ∧
      ¬packet.Carries (setup.iss + 1) e.written

theorem Setup.strays {events : List Endpoint.Event} {written : List Byte}
    (position : Nat)
    (runs : ((run Endpoint.step (.initial setup : SampleEndpoint) events).map fun e =>
      (e.snd.wire.getLast?, e.written)) = some (some packet, written))
    (data : packet.payload ≠ []) (number : packet.seq = after (setup.iss + 1) position)
    (near : position < 2 ^ 32 ∧ written.length < 2 ^ 32)
    (differs : (written.drop position).take packet.payload.length ≠ packet.payload) :
    setup.Strays packet.zeroWindowProbe := by
  obtain ⟨e, ran, state⟩ := map_eq_some_iff.mp runs
  obtain ⟨last, rfl⟩ := Prod.mk.inj state
  exact ⟨e, ⟨_, ran⟩, packet, mem_of_getLast? last, rfl, data, fun carries =>
    differs (carries.content data number near.1 near.2)⟩

/-- A zero window probe carries a byte of its own, with the last acknowledged number. Other packets
carry wrong bytes once the cork timer has renumbered a transmitted segment, or after a SACK block
that ends before it starts. -/
theorem zero_window_probe_carries_junk :
    (sampleSetup 0 3 false).Strays true ∧ (sampleSetup 1000 3 false).Strays false ∧
      Setup.Strays { sampleSetup 1000 3 false with sackPermitted := true } false := by
  refine ⟨?_, ?_, ?_⟩
  · have runs : ((run Endpoint.step (.initial (sampleSetup 0 3 false) : SampleEndpoint)
        [.write [7] .allowed ⟨0, 10⟩ true, .retransmitTimer false ⟨0, 1⟩ true]).map fun e =>
          (e.snd.wire.getLast?, e.written)) =
        some (some ⟨99, ⟨true, false, false⟩, [0], true⟩, [7]) := by decide
    exact Setup.strays (2 ^ 32 - 1) runs (by decide) (by decide) (by decide) (by decide)
  · have runs : ((run Endpoint.step (.initial (sampleSetup 1000 3 false) : SampleEndpoint)
        renumbered).map fun e => (e.snd.wire.getLast?, e.written)) =
        some (some ⟨108, ⟨true, true, false⟩, [5, 6, 7, 8], false⟩, [1, 2, 3, 4, 5, 6, 7, 8, 9]) := by
      decide
    exact Setup.strays 8 runs (by decide) (by decide) (by decide) (by decide)
  · have runs : ((run Endpoint.step
        (.initial { sampleSetup 1000 3 false with sackPermitted := true } : SampleEndpoint)
        reversedBlock).map fun e => (e.snd.wire.getLast?, e.written)) =
        some (some ⟨104, ⟨true, true, false⟩, [7, 8, 9], false⟩, [1, 2, 3, 4, 5, 6, 7, 8, 9]) := by decide
    exact Setup.strays 4 runs (by decide) (by decide) (by decide) (by decide)

/-! The classification of the first bytes. -/

/-- What holds of a stream that is to be classified: nothing of it is sent before `CheckL7` has allowed
it, every call gets the first bytes that are queued, while more are needed they are all of them, after
a denial nothing is sent, and what is sent starts with the first byte and goes on where an earlier
packet has ended, or before. -/
structure Endpoint.HeldUntilAllowed (e : Endpoint tree) (base : Seqnum) : Prop where
  held : (∀ check ∈ e.checks, check.verdict ≠ .allowed) → Silent e.snd.wire
  checked : ∀ check ∈ e.checks, check.bytes = check.queued.take egressL7SniffLimit ∧ check.queued <+: e.written
  buffered : e.terminated = false → ∀ check ∈ e.checks.getLast?, check.verdict = .needMore →
    e.egressL7Prefix = e.written
  denied : (∃ check ∈ e.checks, check.verdict = .denied) → Silent e.snd.wire
  inOrder : ∃ mark, Emitted base e.input e.snd.wire mark

/-- In every state that a run of orderly steps reaches. -/
theorem egress_held_until_allowed (lawful : tree.Lawful sackBlockLess) (setup : Setup)
    (gate : setup.requireEgressL7 = true) (e : Endpoint tree)
    (reaches : Reaches Endpoint.orderlyStep (.initial setup) e) :
    e.HeldUntilAllowed (setup.iss + 1) := by
  obtain ⟨streams, gated⟩ := Endpoint.reaches_ok lawful reaches
  refine ⟨gated.silent gate, gated.checked, ?_, fun denied => (gated.denied denied).2, streams.emitted⟩
  intro active check last more
  have hold := gated.holding active check last more
  rw [gated.sniffed (gated.required hold)]
  exact take_of_length_le (Nat.le_of_lt (gated.whole hold))

theorem egress_held_until_allowed_second_write :
    ∃ e : SampleEndpoint, Reaches Endpoint.orderlyStep (.initial (sampleSetup 1000 3 true)) e ∧
      e.snd.wire.map Packet.payload = [[1, 2, 3]] ∧
      e.HeldUntilAllowed ((sampleSetup 1000 3 true).iss + 1) := by
  have runs : ((run Endpoint.orderlyStep (.initial (sampleSetup 1000 3 true) : SampleEndpoint)
      [.write [1] .needMore ⟨0, 10⟩ true, .retransmitTimer false ⟨0, 10⟩ true,
        .write [2, 3] .allowed ⟨0, 10⟩ true]).map fun e =>
        e.snd.wire.map Packet.payload) = some [[1, 2, 3]] := by decide
  obtain ⟨e, ran, sent⟩ := map_eq_some_iff.mp runs
  exact ⟨e, ⟨_, ran⟩, sent, egress_held_until_allowed (sortedList_lawful sackBlockLess) _ rfl e ⟨_, ran⟩⟩

/-- After a restore under TCP_CORK the cork timer is armed. While the stream is held, a smaller MTU
makes `writeNext` a segment that does not come first, and the timer gives it the first number. Once the
stream is allowed, that segment is sent with it. -/
theorem cork_timer_out_of_order :
    ∃ e : SampleEndpoint, Reaches Endpoint.step (.initial (sampleSetup 1000 9 true)) e ∧
      ¬e.HeldUntilAllowed ((sampleSetup 1000 9 true).iss + 1) := by
  have runs : ((run Endpoint.step (.initial (sampleSetup 1000 9 true) : SampleEndpoint)
      [.setCorkOption true ⟨0, 10⟩ true, .restore true 100 10, .write [1] .needMore ⟨0, 10⟩ true,
        .write [2, 3, 4, 5, 6, 7] .needMore ⟨0, 10⟩ true, .packetTooBig 4 ⟨0, 10⟩ true,
        .corkTimer ⟨0, 10⟩ true, .write [8] .allowed ⟨0, 10⟩ true]).map fun e =>
        (e.snd.wire, e.written)) =
      some ([⟨100, ⟨true, true, false⟩, [1], false⟩, ⟨100, ⟨true, false, false⟩, [2, 3, 4, 5], false⟩,
        ⟨104, ⟨true, true, false⟩, [6, 7], false⟩], [1, 2, 3, 4, 5, 6, 7, 8]) := by decide
  obtain ⟨e, ran, state⟩ := map_eq_some_iff.mp runs
  obtain ⟨wire, written⟩ := Prod.mk.inj state
  refine ⟨e, ⟨_, ran⟩, ?_⟩
  intro holds
  obtain ⟨mark, emitted⟩ := holds.inOrder
  have member : (⟨100, ⟨true, false, false⟩, [2, 3, 4, 5], false⟩ : Packet) ∈ e.snd.wire := by
    rw [wire]
    decide
  obtain ⟨position, number, content⟩ := emitted.carries member rfl
  have carries := Packet.carries_of_units number (by decide) content
  rw [written] at carries
  have first := carries.content (by decide)
    (show _ = after ((sampleSetup 1000 9 true).iss + 1) 0 by decide) (by decide) (by decide)
  exact absurd first (by decide)

end BVisor.Tcp
