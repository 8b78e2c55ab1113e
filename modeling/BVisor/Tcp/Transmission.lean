import BVisor.Tcp.Queue

/-! What a sender does when it sends a segment, for the first time or again. The list stays a queue,
and what is handed to the network is the stream: a packet starts where an earlier one has ended, or
before. -/

namespace BVisor.Tcp

open Data Seqnum Seqnum OutgoingSegment
open List hiding after

variable {tree : OrderedTree SACKBlock} {base : Seqnum} {stream : List (Option Byte)}
  {una nxt size index limit : Nat} {seg other : OutgoingSegment}
  {sent rest before later : List OutgoingSegment} {s : Sender tree}

def Packet.units (packet : Packet) : List (Option Byte) :=
  if packet.payload = [] then [none] else packet.payload.map some

/-- The packets other than zero window probes carry the stream, each of them from a position that an
earlier one has reached; `mark` is the highest position. -/
inductive Emitted (base : Seqnum) (stream : List (Option Byte)) : List Packet → Nat → Prop where
  | start : Emitted base stream [] 0
  | probe {wire : List Packet} {mark : Nat} {packet : Packet}
      (emitted : Emitted base stream wire mark) (probes : packet.zeroWindowProbe = true) :
      Emitted base stream (wire ++ [packet]) mark
  | packet {wire : List Packet} {mark start : Nat} {packet : Packet}
      (emitted : Emitted base stream wire mark) (carries : packet.zeroWindowProbe = false)
      (reached : start ≤ mark) (number : packet.seq = after base start)
      (content : packet.units <+: stream.drop start) :
      Emitted base stream (wire ++ [packet]) (max mark (start + packet.units.length))

/-- The write list and the sequence numbers of a sender, and what it has sent. -/
structure Layout (base : Seqnum) (stream : List (Option Byte)) (una nxt : Nat)
    (sent rest : List OutgoingSegment) (space : SendSpace tree) (writeList : List OutgoingSegment)
    (wire : List Packet) : Prop where
  list : writeList = sent ++ rest
  queue : Queue base stream una nxt sent rest
  sndUna : space.sndUna = after base una
  sndNxt : space.sndNxt = after base nxt
  close : nxt < una + 2 ^ 32
  spaceOK : space.OK
  finSent : space.finSent = true → rest = [] ∧ none ∈ stream
  emitted : Emitted base stream wire nxt

/-- `writeNext` is not after the first segment that waits, unless only the end of the stream does. -/
def Placed (sent rest : List OutgoingSegment) (writeNext : Nat) : Prop :=
  writeNext ≤ sent.length ∨
    writeNext = sent.length + rest.length ∧ ∀ seg ∈ rest, seg.payload = []

/-- The limits on the size of a segment are positive and small. -/
structure Sizes (maxPayloadSize gsoLimit smss : Nat) : Prop where
  hasPayload : 0 < maxPayloadSize
  smallPayload : maxPayloadSize < 2 ^ 16
  hasGsoLimit : 0 < gsoLimit
  smallGsoLimit : gsoLimit < maxQueued
  hasSmss : 0 < smss

namespace Sender

def Sized (s : Sender tree) : Prop := Sizes s.maxPayloadSize s.gsoLimit s.smss

def Laid (s : Sender tree) (base : Seqnum) (stream : List (Option Byte)) (una nxt : Nat)
    (sent rest : List OutgoingSegment) : Prop :=
  Layout base stream una nxt sent rest s.space s.writeList s.wire

structure Frame (s s' : Sender tree) : Prop where
  maxPayloadSize : s'.maxPayloadSize = s.maxPayloadSize
  gsoLimit : s'.gsoLimit = s.gsoLimit
  scoreboard : s'.space.scoreboard = s.space.scoreboard
  windowEnd : s'.space.windowEnd = s.space.windowEnd
  fastRecovery : s'.fastRecovery = s.fastRecovery
  probeTimer : s'.probeTimer = s.probeTimer
  hold : s'.egressL7Hold = s.egressL7Hold

theorem Frame.refl (s : Sender tree) : s.Frame s :=
  ⟨rfl, rfl, rfl, rfl, rfl, rfl, rfl⟩

theorem Frame.trans {s₁ s₂ s₃ : Sender tree} (first : s₁.Frame s₂) (second : s₂.Frame s₃) : s₁.Frame s₃ :=
  ⟨second.maxPayloadSize.trans first.maxPayloadSize, second.gsoLimit.trans first.gsoLimit,
    second.scoreboard.trans first.scoreboard, second.windowEnd.trans first.windowEnd,
    second.fastRecovery.trans first.fastRecovery, second.probeTimer.trans first.probeTimer,
    second.hold.trans first.hold⟩

theorem Frame.sized {s' : Sender tree} (frame : s.Frame s') (sized : s.Sized) : s'.Sized := by
  unfold Sized Sender.smss
  rw [frame.maxPayloadSize, frame.gsoLimit, frame.scoreboard]
  exact sized

/-- What is known once the segment at `index` was sent or was not sent. -/
structure After (s : Sender tree) (base : Seqnum) (stream : List (Option Byte)) (una nxt index : Nat)
    (s' : Sender tree) (isSent : Bool) : Prop where
  laid : ∃ nxt' sent' rest', nxt ≤ nxt' ∧ s'.Laid base stream una nxt' sent' rest' ∧
    Placed sent' rest' s'.writeNext ∧ (isSent = true → index < sent'.length)
  writeNext : s.writeNext ≤ index → s'.writeNext = s.writeNext
  frame : s.Frame s'

def transmitted (seg : OutgoingSegment) : OutgoingSegment :=
  { seg with xmitCount := seg.xmitCount + 1, lost := false }

/-! One segment of the list. -/

section

variable (list : s.writeList = before ++ seg :: later)
include list

theorem segment_around : s.writeList[before.length]? = some seg := by
  rw [list, List.getElem?_append_right (Nat.le_refl _), Nat.sub_self]
  rfl

theorem drop_around : s.writeList.drop before.length = seg :: later := by
  rw [list, drop_left]

theorem setSegment_around :
    s.setSegment before.length other = { s with writeList := before ++ other :: later } := by
  unfold setSegment
  rw [list, set_append_right _ _ (Nat.le_refl _), Nat.sub_self]
  rfl

theorem sendSegment_around :
    s.sendSegment before.length =
      { s with
        writeList := before ++ transmitted seg :: later
        wire := s.wire ++ [⟨seg.sequenceNumber, seg.flags, seg.payload, false⟩] } := by
  unfold sendSegment
  rw [segment_around list]
  dsimp only
  rw [setSegment_around list]
  rfl

end

def firstPart (maxPayloadSize size : Nat) (seg : OutgoingSegment) : OutgoingSegment :=
  { seg with
    payload := seg.payload.take size
    flags := if seg.payload.length > maxPayloadSize then
      { seg.flags with psh := !seg.flags.psh } else seg.flags }

def secondPart (size : Nat) (seg : OutgoingSegment) : OutgoingSegment :=
  { seg with
    payload := seg.payload.drop size
    sequenceNumber := seg.sequenceNumber + BitVec.ofNat 32 size
    lost := false }

theorem firstPart_flags (maxPayloadSize : Nat) :
    (firstPart maxPayloadSize size seg).flags.ack = seg.flags.ack ∧
      (firstPart maxPayloadSize size seg).flags.fin = seg.flags.fin := by
  unfold firstPart
  dsimp only
  split
  · exact ⟨rfl, rfl⟩
  · exact ⟨rfl, rfl⟩

section

variable (list : s.writeList = before ++ seg :: later)
include list

theorem splitSeg_short (short : seg.payload.length ≤ size) : s.splitSeg before.length size = s := by
  unfold splitSeg
  rw [segment_around list]
  dsimp only
  rw [if_pos short]

theorem splitSeg_around (long : size < seg.payload.length) :
    s.splitSeg before.length size =
      { s with
        writeList := before ++ firstPart s.maxPayloadSize size seg :: secondPart size seg :: later
        writeNext := if before.length < s.writeNext then s.writeNext + 1 else s.writeNext } := by
  unfold splitSeg
  rw [segment_around list]
  dsimp only
  rw [if_neg (Nat.not_le_of_lt long), ← drop_drop, drop_around list, list, take_left]
  rfl

def finSegment (seg : OutgoingSegment) : OutgoingSegment :=
  { seg with flags := ⟨true, false, true⟩ }

def withFin (s : Sender tree) (index : Nat) (seg : OutgoingSegment) : Sender tree :=
  let s := s.setSegment index (finSegment seg)
  { s with space := { s.space with finSent := true } }

theorem withFin_around :
    s.withFin before.length seg =
      { s with
        writeList := before ++ finSegment seg :: later
        space := { s.space with finSent := true } } := by
  unfold withFin
  rw [setSegment_around list]

end

theorem transmit_end (list : s.writeList = before ++ [seg]) (empty : seg.payload = []) (stop : Seqnum) :
    s.transmit before.length limit stop =
      .ok (((s.withFin before.length seg).sendSegment before.length).advance
        (add seg.sequenceNumber 1), true) := by
  unfold Sender.transmit
  rw [segment_around list]
  dsimp only
  rw [if_pos (by rw [empty]; rfl), if_neg (by rw [list]; simp)]
  rfl

theorem transmit_data (list : s.writeList = before ++ seg :: later) (data : seg.payload ≠ [])
    (noFin : seg.flags.fin = false) (sized : s.Sized) (positive : 0 < limit) (stop : Seqnum) :
    s.transmit before.length limit stop = .ok (s, false) ∨
    ∃ available, 0 < available ∧ available ≤ (Seqnum.size seg.sequenceNumber stop).toNat ∧
      lessThan seg.sequenceNumber stop = true ∧
      s.transmit before.length limit stop =
        .ok (((s.splitSeg before.length available).sendSegment before.length).advance
          (add seg.sequenceNumber (BitVec.ofNat 32 (min seg.payload.length available))), true) := by
  have length : seg.payload.length ≠ 0 := fun none => data (length_eq_zero_iff.mp none)
  unfold Sender.transmit
  rw [segment_around list]
  dsimp only
  rw [if_neg length, if_neg (by rw [noFin]; exact Bool.false_ne_true)]
  split
  · exact .inl rfl
  split
  · exact .inl rfl
  split
  · exact .inl rfl
  rename_i room full _
  rw [Bool.not_eq_true', Bool.not_eq_false] at room
  have hasPayload := sized.hasPayload
  refine .inr ⟨_, ?_, ?_, room, rfl⟩ <;> split <;> omega

theorem finSent_ok {space : SendSpace tree} (ok : space.OK) :
    { space with finSent := true : SendSpace tree }.OK := by
  refine ⟨ok.window, ?_, ok.within⟩
  show offset space.sndUna space.sndNxt ≤ SendSpace.maxSndWnd + 1
  have flight := ok.flight
  split at flight <;> omega

/-! Numbers. -/

variable {left : List OutgoingSegment} {first : OutgoingSegment}

namespace Laid

section

variable (laid : s.Laid base stream una nxt sent rest)
include laid

theorem flight : offset s.space.sndUna s.space.sndNxt = nxt - una := by
  rw [laid.sndUna, laid.sndNxt]
  exact size_after laid.queue.sent.le laid.close

theorem near : nxt < una + 2 ^ 30 := by
  have near := laid.spaceOK.near
  rw [laid.flight] at near
  omega

theorem lessThan_sndNxt (position : Nat) (low : una ≤ position) (high : position < una + 2 ^ 31) :
    lessThan s.space.sndNxt (after base position) = true ↔ nxt < position := by
  have near := laid.near
  have ahead := laid.queue.sent.le
  rw [laid.sndNxt]
  exact lessThan_after (by omega) (by omega)

theorem advance_sent {position : Nat}
    (low : una ≤ position) (high : position ≤ nxt) : s.advance (after base position) = s := by
  have near := laid.near
  have stays : ¬lessThan s.space.sndNxt (after base position) = true := by
    rw [laid.lessThan_sndNxt position low (by omega)]
    omega
  unfold Sender.advance SendSpace.advance
  rw [if_neg stays]

end

/-! Segments that were sent. -/

theorem sent_around (inside : index < sent.length) :
    ∃ before seg later, sent = before ++ seg :: later ∧ before.length = index := by
  refine ⟨sent.take index, sent[index], sent.drop (index + 1), ?_, ?_⟩
  · rw [← drop_eq_getElem_cons inside, take_append_drop]
  · rw [length_take, Nat.min_eq_left (Nat.le_of_lt inside)]

section

variable (laid : s.Laid base stream una nxt (before ++ seg :: later) rest)

include laid

theorem list_around : s.writeList = before ++ seg :: (later ++ rest) := by
  rw [laid.list, append_assoc]
  rfl

theorem resend :
    (s.sendSegment before.length).Laid base stream una nxt (before ++ transmitted seg :: later) rest := by
  obtain ⟨_, sentAt, others⟩ := laid.queue.sent.around
  rw [sendSegment_around laid.list_around]
  refine ⟨?_, ?_, laid.sndUna, laid.sndNxt, laid.close, laid.spaceOK, laid.finSent, ?_⟩
  · rw [append_assoc]
    rfl
  · exact laid.queue.replace rfl rfl rfl rfl (Nat.succ_ne_zero _)
  · have start := others.le
    have emitted : Emitted base stream
        (s.wire ++ [⟨seg.sequenceNumber, seg.flags, seg.payload, false⟩])
        (max nxt (una + (units before).length + seg.units.length)) := by
      apply Emitted.packet laid.emitted rfl (by omega) sentAt.number
      rw [laid.queue.holds_around.drop]
      exact prefix_append _ _
    rw [Nat.max_eq_left start] at emitted
    exact emitted

theorem split (positive : 0 < size) (long : size < seg.payload.length) :
    (s.splitSeg before.length size).Laid base stream una nxt
      (before ++ firstPart s.maxPayloadSize size seg :: secondPart size seg :: later) rest := by
  have flags := @firstPart_flags size seg s.maxPayloadSize
  rw [splitSeg_around laid.list_around long]
  refine ⟨?_, ?_, laid.sndUna, laid.sndNxt, laid.close, laid.spaceOK, laid.finSent, laid.emitted⟩
  · rw [append_assoc]
    rfl
  · exact laid.queue.split positive long ⟨rfl, rfl, flags.1, flags.2, rfl⟩ ⟨rfl, rfl, rfl, rfl⟩

omit laid in
theorem placed_split {second : OutgoingSegment} {writeNext : Nat}
    (placed : Placed (before ++ seg :: later) rest writeNext) :
    Placed (before ++ first :: second :: later) rest
      (if before.length < writeNext then writeNext + 1 else writeNext) := by
  unfold Placed at placed ⊢
  simp only [length_append, length_cons] at placed ⊢
  rcases placed with inSent | ⟨atEnd, ended⟩
  · left
    split <;> omega
  · right
    refine ⟨?_, ended⟩
    split <;> omega

section

variable (placed : Placed (before ++ seg :: later) rest s.writeNext)
include placed

theorem splitAndResend (positive : 0 < size) :
    s.After base stream una nxt before.length
      ((s.splitSeg before.length size).sendSegment before.length) true := by
  by_cases long : size < seg.payload.length
  · have cut := laid.split positive long
    have resent := cut.resend
    rw [sendSegment_around cut.list_around] at resent ⊢
    rw [splitSeg_around laid.list_around long] at resent ⊢
    refine ⟨⟨nxt, _, rest, Nat.le_refl _, resent, ?_, by simp⟩, ?_, ⟨rfl, rfl, rfl, rfl, rfl, rfl, rfl⟩⟩
    · exact placed_split placed
    · intro notAfter
      exact if_neg (Nat.not_lt_of_le notAfter)
  rw [splitSeg_short laid.list_around (Nat.le_of_not_lt long)]
  have resent := laid.resend
  rw [sendSegment_around laid.list_around] at resent ⊢
  refine ⟨⟨nxt, _, rest, Nat.le_refl _, resent, ?_, by simp⟩, fun _ => rfl,
    ⟨rfl, rfl, rfl, rfl, rfl, rfl, rfl⟩⟩
  unfold Placed at placed ⊢
  simp only [length_append, length_cons] at placed ⊢
  exact placed

theorem transmit_sentEnd (empty : seg.payload = []) (stop : Seqnum) :
    ∃ s', s.transmit before.length limit stop = .ok (s', true) ∧
      s.After base stream una nxt before.length s' true := by
  obtain ⟨_, sentAt, others⟩ := laid.queue.sent.around
  have last : later ++ rest = [] := laid.queue.holds_around.end_last empty
  obtain ⟨rfl, rfl⟩ := append_eq_nil_iff.mp last
  have ended : none ∈ stream := laid.queue.holds.end_mem seg (by simp) empty
  have fin : seg.flags.fin = true := by
    rw [sentAt.fin, empty]
    rfl
  have marked : (s.withFin before.length seg).Laid base stream una nxt
      (before ++ [finSegment seg]) [] := by
    rw [withFin_around laid.list_around]
    refine ⟨by simp, ?_, laid.sndUna, laid.sndNxt, laid.close, finSent_ok laid.spaceOK,
      fun _ => ⟨rfl, ended⟩, laid.emitted⟩
    exact laid.queue.replace rfl sentAt.flagged.symm fin.symm rfl sentAt.sent
  have resent := marked.resend
  refine ⟨_, transmit_end laid.list_around empty stop, ?_⟩
  have number : add seg.sequenceNumber 1 =
      after base (una + (units before).length + seg.units.length) := by
    rw [sentAt.number, units_end empty]
    exact after_add 1
  rw [number, resent.advance_sent (by omega) others.le]
  rw [sendSegment_around marked.list_around] at resent ⊢
  rw [withFin_around laid.list_around] at resent ⊢
  refine ⟨⟨nxt, _, [], Nat.le_refl _, resent, ?_, by simp⟩, fun _ => rfl,
    ⟨rfl, rfl, rfl, rfl, rfl, rfl, rfl⟩⟩
  unfold Placed at placed ⊢
  simp only [length_append, length_cons] at placed ⊢
  exact placed

theorem transmit_sent (sized : s.Sized) (positive : 0 < limit) (stop : Seqnum) :
    ∃ s' isSent, s.transmit before.length limit stop = .ok (s', isSent) ∧
      s.After base stream una nxt before.length s' isSent := by
  obtain ⟨_, sentAt, others⟩ := laid.queue.sent.around
  have kept : s.After base stream una nxt before.length s false :=
    ⟨⟨nxt, _, rest, Nat.le_refl _, laid, placed, fun isSent => (nomatch isSent)⟩, fun _ => rfl, Frame.refl s⟩
  by_cases empty : seg.payload = []
  · obtain ⟨s', run, after⟩ := transmit_sentEnd laid placed empty stop
    exact ⟨s', true, run, after⟩
  have noFin : seg.flags.fin = false := by
    rw [sentAt.fin, isEmpty_eq_false_iff]
    exact empty
  rcases transmit_data laid.list_around empty noFin sized positive stop with
    run | ⟨available, available_pos, _, _, run⟩
  · exact ⟨s, false, run, kept⟩
  refine ⟨_, true, run, ?_⟩
  have resent := laid.splitAndResend placed available_pos
  obtain ⟨nxt', sent', rest', further, laid', _⟩ := resent.laid
  have number : add seg.sequenceNumber (BitVec.ofNat 32 (min seg.payload.length available)) =
      after base (una + (units before).length + min seg.payload.length available) := by
    rw [sentAt.number]
    exact after_add _
  have stops := others.le
  rw [units_length_data empty] at stops
  rw [number, laid'.advance_sent (by omega) (by omega)]
  exact resent

end

/-! The first segment that waits. -/

end

section

variable (laid : s.Laid base stream una nxt sent (seg :: rest))
include laid

theorem finSent_false : s.space.finSent = false :=
  Bool.eq_false_iff.mpr fun finSent => cons_ne_nil seg rest (laid.finSent finSent).1

theorem drop_nxt : stream.drop nxt = seg.units ++ units rest := by
  rw [laid.queue.sent.stop_eq]
  exact laid.queue.holds.drop

theorem emitNew {packet : Packet}
    (queue : Queue base stream una (nxt + size) (sent ++ [first]) left)
    (positive : 0 < size) (small : size < maxQueued)
    (carries : packet.zeroWindowProbe = false) (number : packet.seq = after base nxt)
    (content : packet.units <+: stream.drop nxt) (length : packet.units.length = size)
    (room : lessThan s.space.sndNxt s.space.windowEnd = true)
    (fits : size ≤ (Seqnum.size s.space.sndNxt s.space.windowEnd).toNat) :
    Layout base stream una (nxt + size) (sent ++ [first]) left
      (s.space.advance (after base (nxt + size))) (sent ++ first :: left) (s.wire ++ [packet]) := by
  have near := laid.near
  have ahead := laid.queue.sent.le
  have most : maxQueued = 2 ^ 30 := rfl
  have segEnd : add s.space.sndNxt (BitVec.ofNat 32 size) = after base (nxt + size) := by
    rw [laid.sndNxt]
    exact after_add size
  have count : (BitVec.ofNat 32 size).toNat = size := by
    rw [BitVec.toNat_ofNat]
    exact Nat.mod_eq_of_lt (by omega)
  refine ⟨by simp, queue, laid.sndUna, ?_, by omega, ?_, ?_, ?_⟩
  · have moves := (laid.lessThan_sndNxt (nxt + size) (by omega) (by omega)).mpr (by omega)
    show (if _ then _ else _) = _
    rw [if_pos moves]
  · rw [← segEnd]
    exact SendSpace.advance_ok laid.spaceOK room (by rw [count]; exact fits)
  · intro finSent
    have unsent : s.space.finSent = true := finSent
    rw [laid.finSent_false] at unsent
    cases unsent
  · have emitted := Emitted.packet laid.emitted carries (Nat.le_refl nxt) number content
    rw [length, Nat.max_eq_right (by omega)] at emitted
    exact emitted

end

theorem placed_front (placed : Placed sent (seg :: rest) s.writeNext) (data : seg.payload ≠ []) :
    s.writeNext ≤ sent.length := by
  rcases placed with inSent | ⟨_, ended⟩
  · exact inSent
  · exact absurd (ended seg mem_cons_self) data

section

variable (laid : s.Laid base stream una nxt sent (seg :: rest))
  (placed : Placed sent (seg :: rest) s.writeNext) (numbered : seg.NumberedAt base nxt)

include laid placed numbered

theorem sendWhole (data : seg.payload ≠ []) (room : lessThan s.space.sndNxt s.space.windowEnd = true)
    (fits : seg.payload.length ≤ (Seqnum.size s.space.sndNxt s.space.windowEnd).toNat) :
    s.After base stream una nxt sent.length
      ((s.sendSegment sent.length).advance (after base (nxt + seg.payload.length))) true := by
  have short := laid.queue.holds_first.short seg (by simp)
  have length := units_length_data data
  have sentAt : (transmitted seg).SentAt base nxt :=
    ⟨numbered.number, numbered.flagged, Nat.succ_ne_zero _, by
      show seg.flags.fin = seg.payload.isEmpty
      rw [numbered.noFin, isEmpty_eq_false_iff.mpr data]⟩
  have queue := laid.queue.send sentAt rfl
  rw [length] at queue
  rw [sendSegment_around laid.list]
  refine ⟨⟨_, _, _, Nat.le_add_right _ _, laid.emitNew queue (length_pos_iff.mpr data) short
    rfl numbered.number ?_ length room fits, .inl ?_, by simp⟩, fun _ => rfl,
    ⟨rfl, rfl, rfl, rfl, rfl, rfl, rfl⟩⟩
  · rw [laid.drop_nxt]
    exact prefix_append _ _
  · show s.writeNext ≤ _
    rw [length_append]
    exact Nat.le_add_right_of_le (placed_front placed data)

theorem sendPart (positive : 0 < size) (long : size < seg.payload.length)
    (room : lessThan s.space.sndNxt s.space.windowEnd = true)
    (fits : size ≤ (Seqnum.size s.space.sndNxt s.space.windowEnd).toNat) :
    s.After base stream una nxt sent.length
      (((s.splitSeg sent.length size).sendSegment sent.length).advance
        (after base (nxt + size))) true := by
  have short := laid.queue.holds_first.short seg (by simp)
  have data : seg.payload ≠ [] := ne_nil_of_length_pos (Nat.zero_lt_of_lt long)
  have length : (seg.payload.take size).length = size := by
    rw [length_take, Nat.min_eq_left (Nat.le_of_lt long)]
  have partData : seg.payload.take size ≠ [] := ne_nil_of_length_pos (by omega)
  have flags := @firstPart_flags size seg s.maxPayloadSize
  have firstAt : (transmitted (firstPart s.maxPayloadSize size seg)).SentAt base nxt :=
    ⟨numbered.number, flags.1.trans numbered.flagged, Nat.succ_ne_zero _, by
      show _ = (seg.payload.take size).isEmpty
      rw [isEmpty_eq_false_iff.mpr partData]
      exact flags.2.trans numbered.noFin⟩
  have secondAt : (secondPart size seg).ReadyAt base (nxt + size) := by
    refine ⟨laid.queue.waiting.1.unsent, fun _ => ⟨?_, numbered.flagged, numbered.noFin⟩⟩
    rw [← after_add, ← numbered.number]
    rfl
  have queue := laid.queue.sendFirst positive long rfl firstAt rfl secondAt
  have inFront := placed_front placed data
  rw [splitSeg_around laid.list long, sendSegment_around rfl]
  refine ⟨⟨_, _, _, Nat.le_add_right _ _, laid.emitNew queue positive (by omega) rfl
    numbered.number ?_ ?_ room fits, .inl ?_, by simp⟩, fun _ => ?_,
    ⟨rfl, rfl, rfl, rfl, rfl, rfl, rfl⟩⟩
  · rw [laid.drop_nxt, units_data data]
    unfold Packet.units
    show (if seg.payload.take size = [] then _ else (seg.payload.take size).map some) <+: _
    rw [if_neg partData, map_take]
    exact (List.take_prefix _ _).trans (prefix_append _ _)
  · unfold Packet.units
    show (if seg.payload.take size = [] then _ else (seg.payload.take size).map some).length = _
    rw [if_neg partData, length_map, length]
  · show (if _ then _ else _) ≤ _
    rw [if_neg (Nat.not_lt_of_le inFront), length_append]
    exact Nat.le_add_right_of_le inFront
  · exact if_neg (Nat.not_lt_of_le inFront)

theorem transmit_newEnd (empty : seg.payload = []) (stop : Seqnum) :
    ∃ s', s.transmit sent.length limit stop = .ok (s', true) ∧
      s.After base stream una nxt sent.length s' true := by
  obtain rfl := laid.queue.rest_of_end empty
  have near := laid.near
  have ahead := laid.queue.sent.le
  have units := units_end empty
  have sentAt : (transmitted (finSegment seg)).SentAt base nxt :=
    ⟨numbered.number, rfl, Nat.succ_ne_zero _, by
      show true = seg.payload.isEmpty
      rw [empty]
      rfl⟩
  have queue := laid.queue.send sentAt rfl
  rw [units] at queue
  have segEnd : add seg.sequenceNumber 1 = after base (nxt + 1) := by
    rw [numbered.number]
    exact after_add 1
  have segEnd' : add s.space.sndNxt 1 = after base (nxt + 1) := by
    rw [laid.sndNxt]
    exact after_add 1
  refine ⟨_, transmit_end laid.list empty stop, ?_⟩
  rw [withFin_around laid.list, sendSegment_around rfl, segEnd]
  refine ⟨⟨nxt + 1, sent ++ [transmitted (finSegment seg)], [], Nat.le_add_right _ _,
    ⟨(append_nil _).symm, queue, laid.sndUna, ?_, by omega, ?_, ?_, ?_⟩, .inl ?_, by simp⟩,
    fun _ => rfl,
    ⟨rfl, rfl, rfl, rfl, rfl, rfl, rfl⟩⟩
  · have moves := (laid.lessThan_sndNxt (nxt + 1) (by omega) (by omega)).mpr (by omega)
    show (if _ then _ else _) = _
    rw [if_pos moves]
  · have ok := SendSpace.advanceFin_ok laid.spaceOK laid.finSent_false
    rw [segEnd'] at ok
    exact ok
  · intro _
    exact ⟨rfl, laid.queue.holds.end_mem seg (by simp) empty⟩
  · have emitted : Emitted base stream
        (s.wire ++ [⟨seg.sequenceNumber, (finSegment seg).flags, seg.payload, false⟩])
        (max nxt (nxt + seg.units.length)) := by
      apply Emitted.packet laid.emitted rfl (Nat.le_refl _) numbered.number
      rw [laid.drop_nxt]
      exact prefix_append _ _
    rw [units, length_singleton, Nat.max_eq_right (Nat.le_succ _)] at emitted
    exact emitted
  · show s.writeNext ≤ _
    rw [length_append]
    rcases placed with inSent | ⟨atEnd, _⟩
    · exact Nat.le_add_right_of_le inSent
    · exact Nat.le_of_eq atEnd

theorem transmit_new (sized : s.Sized) (positive : 0 < limit) :
    ∃ s' isSent, s.transmit sent.length limit s.space.windowEnd = .ok (s', isSent) ∧
      s.After base stream una nxt sent.length s' isSent := by
  have kept : s.After base stream una nxt sent.length s false :=
    ⟨⟨nxt, _, _, Nat.le_refl _, laid, placed, fun isSent => (nomatch isSent)⟩, fun _ => rfl, Frame.refl s⟩
  by_cases empty : seg.payload = []
  · obtain ⟨s', run, after⟩ := transmit_newEnd laid placed numbered empty s.space.windowEnd
    exact ⟨s', true, run, after⟩
  rcases transmit_data laid.list empty numbered.noFin sized positive s.space.windowEnd with
    run | ⟨available, available_pos, fits, room, run⟩
  · exact ⟨s, false, run, kept⟩
  refine ⟨_, true, run, ?_⟩
  have same : seg.sequenceNumber = s.space.sndNxt := by
    rw [numbered.number, laid.sndNxt]
  rw [same] at fits room
  have segEnd : add seg.sequenceNumber (BitVec.ofNat 32 (min seg.payload.length available)) =
      after base (nxt + min seg.payload.length available) := by
    rw [numbered.number]
    exact after_add _
  rw [segEnd]
  by_cases long : available < seg.payload.length
  · rw [Nat.min_eq_right (Nat.le_of_lt long)]
    exact laid.sendPart placed numbered available_pos long room fits
  · have whole := Nat.le_of_not_lt long
    rw [Nat.min_eq_left whole, splitSeg_short laid.list whole]
    exact laid.sendWhole placed numbered empty room (Nat.le_trans whole fits)

/-! `maybeSendSegment`. -/

end

theorem prepare_sent (laid : s.Laid base stream una nxt (before ++ seg :: later) rest)
    (stop : Seqnum) (outstanding : Int) :
    s.prepare before.length limit stop outstanding = (s, true) := by
  obtain ⟨_, sentAt, _⟩ := laid.queue.sent.around
  unfold Sender.prepare
  rw [drop_around laid.list_around]
  dsimp only
  rw [if_pos (assigned_of_flagged sentAt.flagged)]

end Laid

def numberedSegment (number : Seqnum) (seg : OutgoingSegment) : OutgoingSegment :=
  { seg with sequenceNumber := number, flags := ⟨true, true, false⟩ }

namespace Laid

theorem assign (laid : s.Laid base stream una nxt sent (seg :: rest)) :
    s.assign sent.length =
      { s with writeList := sent ++ numberedSegment s.space.sndNxt seg :: rest } ∧
    (s.assign sent.length).Laid base stream una nxt sent (numberedSegment s.space.sndNxt seg :: rest) ∧
    (numberedSegment s.space.sndNxt seg).NumberedAt base nxt := by
  have numbered : (numberedSegment s.space.sndNxt seg).NumberedAt base nxt := ⟨laid.sndNxt, rfl, rfl⟩
  have assigned : s.assign sent.length =
      { s with writeList := sent ++ numberedSegment s.space.sndNxt seg :: rest } := by
    unfold Sender.assign
    rw [segment_around laid.list]
    dsimp only
    rw [setSegment_around laid.list]
    rfl
  refine ⟨assigned, ?_, numbered⟩
  rw [assigned]
  refine ⟨rfl, ?_, laid.sndUna, laid.sndNxt, laid.close, laid.spaceOK, ?_, laid.emitted⟩
  · exact laid.queue.assign rfl laid.queue.waiting.1.unsent numbered
  · intro finSent
    exact absurd (laid.finSent finSent).1 (cons_ne_nil _ _)

theorem merged
    (laid : s.Laid base stream una nxt sent (seg :: rest))
    (queue : Queue base stream una nxt sent (first :: left)) :
    { s with writeList := sent ++ first :: left }.Laid base stream una nxt sent (first :: left) := by
  refine ⟨rfl, queue, laid.sndUna, laid.sndNxt, laid.close, laid.spaceOK, ?_, laid.emitted⟩
  intro finSent
  exact absurd (laid.finSent finSent).1 (cons_ne_nil _ _)

/-- What is known once the first segment that waits was prepared or held back. -/
structure Prepared (s : Sender tree) (base : Seqnum) (stream : List (Option Byte)) (una nxt : Nat)
    (sent : List OutgoingSegment) (s' : Sender tree) (ready : Bool) : Prop where
  laid : ∃ first others, s'.Laid base stream una nxt sent (first :: others) ∧
    Placed sent (first :: others) s'.writeNext ∧ (ready = true → first.NumberedAt base nxt)
  writeNext : s'.writeNext = s.writeNext
  frame : s.Frame s'

theorem Prepared.trans {s₁ s₂ : Sender tree} {ready : Bool}
    (prepared : Prepared s₁ base stream una nxt sent s₂ ready) (frame : s.Frame s₁)
    (writeNext : s₁.writeNext = s.writeNext) : Prepared s base stream una nxt sent s₂ ready :=
  ⟨prepared.laid, prepared.writeNext.trans writeNext, frame.trans prepared.frame⟩

section

variable (laid : s.Laid base stream una nxt sent (seg :: rest))
  (placed : Placed sent (seg :: rest) s.writeNext)
include laid placed

theorem prepare_assign : Prepared s base stream una nxt sent (s.assign sent.length) true := by
  obtain ⟨assigned, laid', numbered⟩ := laid.assign
  rw [assigned] at laid' ⊢
  refine ⟨⟨_, _, laid', ?_, fun _ => numbered⟩, rfl, ⟨rfl, rfl, rfl, rfl, rfl, rfl, rfl⟩⟩
  rcases placed with inSent | ⟨atEnd, ended⟩
  · exact .inl inSent
  refine .inr ⟨atEnd, ?_⟩
  intro member inRest
  rcases mem_cons.mp inRest with rfl | inRest
  · exact ended seg mem_cons_self
  · exact ended member (mem_cons_of_mem _ inRest)

theorem prepare_new (few : limit < maxQueued) (stop : Seqnum) (outstanding : Int) :
    ∃ s' ready, s.prepare sent.length limit stop outstanding = (s', ready) ∧
      Prepared s base stream una nxt sent s' ready := by
  have waiting := laid.queue.waiting.1
  unfold Sender.prepare
  rw [drop_around laid.list]
  dsimp only
  by_cases assigned : seg.isAssignedSequenceNumber = true
  · rw [if_pos assigned]
    exact ⟨s, true, rfl, ⟨⟨seg, rest, laid, placed, fun _ => waiting.numbered assigned⟩, rfl, Frame.refl s⟩⟩
  rw [if_neg assigned]
  by_cases empty : seg.payload.length = 0
  · rw [if_pos empty]
    exact ⟨_, true, rfl, laid.prepare_assign placed⟩
  rw [if_neg empty]
  have data : seg.payload ≠ [] := fun none => empty (by rw [none]; rfl)
  have inFront := placed_front placed data
  generalize room : min (size s.space.sndNxt stop).toNat limit = available
  obtain ⟨first, left, nextTooBig, merges, queue⟩ := laid.queue.mergeLoop_exists
    ⟨waiting.unsent, Bool.eq_false_iff.mpr assigned⟩ data
    (show available < maxQueued by omega)
  rw [merges]
  dsimp only
  rw [if_pos inFront, laid.list, take_left]
  have laid' := laid.merged queue
  have placed' : Placed sent (first :: left) s.writeNext := .inl inFront
  have frame : ∀ startCork corkTimer : Bool,
      s.Frame { s with writeList := sent ++ first :: left, startCork, corkTimer } :=
    fun _ _ => ⟨rfl, rfl, rfl, rfl, rfl, rfl, rfl⟩
  have held : ∀ startCork corkTimer : Bool, Prepared s base stream una nxt sent
      { s with writeList := sent ++ first :: left, startCork, corkTimer } false :=
    fun _ _ => ⟨⟨first, left, laid', placed', fun ready => (nomatch ready)⟩, rfl, frame _ _⟩
  have ready : ∀ startCork corkTimer : Bool, Prepared s base stream una nxt sent
      ({ s with writeList := sent ++ first :: left, startCork, corkTimer }.assign sent.length)
      true := by
    intro startCork corkTimer
    have laid'' : { s with writeList := sent ++ first :: left, startCork, corkTimer }.Laid
      base stream una nxt sent (first :: left) := laid'
    exact (laid''.prepare_assign placed').trans (frame _ _) rfl
  -- Nagle's algorithm and TCP_CORK hold back a segment that is not full.
  split
  · split
    · exact ⟨_, false, rfl, held _ _⟩
    split
    · split
      · exact ⟨_, false, rfl, held _ _⟩
      · exact ⟨_, true, rfl, ready _ _⟩
    · exact ⟨_, true, rfl, ready _ _⟩
  · exact ⟨_, true, rfl, ready _ _⟩

end

/-- `maybeSendSegment` sends no segment before one that waits. -/
theorem maybeSendSegment_exists (laid : s.Laid base stream una nxt sent rest)
    (placed : Placed sent rest s.writeNext) (sized : s.Sized) (inside : index ≤ sent.length)
    (positive : 0 < limit) (few : limit < maxQueued) (outstanding : Int) :
    ∃ s' isSent,
      s.maybeSendSegment index limit s.space.windowEnd outstanding = .ok (s', isSent) ∧
      s.After base stream una nxt index s' isSent := by
  unfold Sender.maybeSendSegment
  rcases Nat.lt_or_eq_of_le inside with inSent | rfl
  · obtain ⟨before, seg, later, rfl, rfl⟩ := sent_around inSent
    rw [laid.prepare_sent]
    exact laid.transmit_sent placed sized positive _
  cases rest with
  | nil =>
    have none : s.prepare sent.length limit s.space.windowEnd outstanding = (s, false) := by
      unfold Sender.prepare
      rw [laid.list, append_nil, drop_length]
    rw [none]
    exact ⟨s, false, rfl, ⟨nxt, sent, [], Nat.le_refl _, laid, placed,
      fun isSent => (nomatch isSent)⟩, fun _ => rfl, Frame.refl s⟩
  | cons seg rest =>
    obtain ⟨s₁, ready, prepares, prepared⟩ := laid.prepare_new placed few s.space.windowEnd outstanding
    obtain ⟨first, others, laid₁, placed₁, numbered⟩ := prepared.laid
    rw [prepares]
    cases ready with
    | false =>
      exact ⟨s₁, false, rfl, ⟨nxt, sent, _, Nat.le_refl _, laid₁, placed₁,
        fun isSent => (nomatch isSent)⟩, fun _ => prepared.writeNext, prepared.frame⟩
    | true =>
      obtain ⟨s₂, isSent, transmits, after⟩ := laid₁.transmit_new placed₁ (numbered rfl)
        (prepared.frame.sized sized) positive
      rw [prepared.frame.windowEnd] at transmits
      refine ⟨s₂, isSent, transmits, after.laid, ?_, prepared.frame.trans after.frame⟩
      intro notAfter
      rw [after.writeNext (by rw [prepared.writeNext]; exact notAfter), prepared.writeNext]

end Laid

end Sender

end BVisor.Tcp
