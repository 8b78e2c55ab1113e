import BVisor.Tcp.Receiver

/-! What the receiver appends to the read queue is the peer's stream, byte by byte, whatever the
order, the overlaps and the boundaries of the segments. -/

namespace BVisor.Tcp

open BitVec hiding add_comm add_zero sub_self

open Data Seqnum

def Receiver.received (receiver : Receiver) : List Byte :=
  receiver.rcvQueue.flatMap Segment.payload

/-- The position in the stream that a sequence number stands for, which is the one closest to the
next byte expected. -/
def Receiver.offset (receiver : Receiver) (segment : Segment) : Int :=
  receiver.received.length + (segment.sequenceNumber - receiver.rcvNxt).toInt

/-- The payload of a segment is what the stream holds at its sequence number. -/
def Agrees (stream : List Byte) (receiver : Receiver) (segment : Segment) : Prop :=
  segment.payload = [] ∨ 0 ≤ receiver.offset segment ∧
    segment.payload = (stream.drop (receiver.offset segment).toNat).take segment.payload.length

instance (stream : List Byte) (receiver : Receiver) (segment : Segment) :
    Decidable (Agrees stream receiver segment) :=
  inferInstanceAs (Decidable (_ ∨ _))

/-- What happens to a receiver: a segment that agrees with the stream, a window that is advertised,
a change of the buffer, and what the application and the sender do. A connection is never
established again. -/
inductive Event where
  | segment (segment : Segment)
  | advertise (rcvWnd : BitVec 32) (rcvAcc : Seqnum)
  | resize (rcvBufSize : Int)
  | shutdownRead
  | close
  | sent (finSent : Bool) (sndNxt : Seqnum)
  | moveTo (state : EndpointState)
deriving DecidableEq

def Receiver.step (stream : List Byte) (receiver : Receiver) : Event → Option Receiver
  | .segment segment =>
    if receiver.closed ∨ Agrees stream receiver segment then
      some (receiver.handleRcvdSegment segment).1
    else none
  | .advertise rcvWnd rcvAcc => some { receiver with rcvWnd, rcvAcc }
  | .resize rcvBufSize => some { receiver with rcvBufSize }
  | .shutdownRead => some { receiver with rcvClosed := true }
  | .close => some { receiver with epClosed := true }
  | .sent finSent sndNxt => some { receiver with finSent, sndNxt }
  | .moveTo state => if state = .established then none else some { receiver with state }

variable {stream : List Byte} {base : Seqnum} {receiver next : Receiver} {segment : Segment}
  {held : Bool}

open Segment

theorem Segment.payloadSize_toNat (segment : Segment) : segment.payloadSize.toNat = segment.payload.length := by
  have short := segment.short
  simp only [payloadSize, toNat_ofNat]
  omega

namespace Receiver

theorem advertisedWindowSize_lt (receiver : Receiver) : receiver.advertisedWindowSize.toNat < 2 ^ 30 := by
  have scale : receiver.rcvWndScale.val ≤ 14 := Nat.le_of_lt_succ receiver.rcvWndScale.isLt
  have factor : 2 ^ receiver.rcvWndScale.val ≤ 2 ^ 14 := Nat.pow_le_pow_right (by omega) scale
  have shifted (capped : BitVec 32) (small : capped.toNat ≤ 0xffff) :
      (capped <<< receiver.rcvWndScale.val).toNat < 2 ^ 30 := by
    have product := Nat.mul_le_mul small factor
    rw [toNat_shiftLeft, Nat.shiftLeft_eq]
    omega
  apply shifted
  split
  · decide
  · omega

theorem acceptable_near (accepted : receiver.acceptable segment.sequenceNumber segment.payloadSize = true) :
    (segment.sequenceNumber - receiver.rcvNxt).toInt ≤ 2 ^ 30 ∧
      (segment.payload.length = 0 → 0 ≤ (segment.sequenceNumber - receiver.rcvNxt).toInt) ∧
      (0 < segment.payload.length →
        1 ≤ (segment.sequenceNumber - receiver.rcvNxt).toInt + segment.payload.length) := by
  have window := receiver.advertisedWindowSize_lt
  have short := segment.short
  have length := segment.payloadSize_toNat
  unfold acceptable Acceptable at accepted
  rw [toInt_eq_toNat_cond]
  generalize receiver.advertisedWindowSize = size at *
  generalize segment.payloadSize = segLen at *
  generalize segment.sequenceNumber = segSeq at *
  generalize receiver.rcvNxt = rcvNxt at *
  have seqBound := segSeq.isLt
  have nxtBound := rcvNxt.isLt
  split at accepted
  · simp only [Bool.and_eq_true, beq_iff_eq, ← toNat_inj] at accepted
    simp only [toNat_sub]
    omega
  rename_i nonempty
  split at accepted
  · rename_i empty
    have zero : segLen.toNat = 0 := by rw [empty]; rfl
    have one : BitVec.toNat (1 : BitVec 32) = 1 := rfl
    simp only [inRange, add, BitVec.ult, toNat_sub, toNat_add, one] at accepted
    rw [decide_eq_true_iff] at accepted
    simp only [toNat_sub]
    omega
  · rename_i full
    simp only [Bool.and_eq_true, lessThan_iff, lessThanEq, Bool.or_eq_true, beq_iff_eq,
      ← toNat_inj, add, toNat_sub, toNat_add] at accepted nonempty
    simp only [toNat_sub]
    omega

theorem advance_received (receiver : Receiver) (segment : Segment) (target : Seqnum) (held : Bool) :
    (receiver.advance segment target held).received = receiver.received := by
  cases fin : segment.fin <;> simp [advance, received, fin]

theorem advance_rcvNxt (receiver : Receiver) (segment : Segment) (target : Seqnum) (held : Bool) :
    (receiver.advance segment target held).rcvNxt = if segment.fin then target + 1 else target := by
  cases fin : segment.fin <;> simp [advance, fin]

theorem stateAfterAck_established
    (stays : receiver.stateAfterAck segment = .established) : receiver.state = .established := by
  unfold stateAfterAck at stays
  cases acked : receiver.acksFin segment <;> cases state : receiver.state <;> simp_all

theorem stateAfterFin_ne : receiver.stateAfterFin segment ≠ .established := by
  unfold stateAfterFin
  cases state : receiver.state <;> simp_all
  split <;> simp

theorem advance_open (receiver : Receiver) (target : Seqnum) (held : Bool) (unfinished : segment.fin = false) :
    (receiver.advance segment target held).closed = receiver.closed ∧
      (receiver.advance segment target held).pending = receiver.pending ∧
      (receiver.advance segment target held).finsConsumed = receiver.finsConsumed ∧
      ((receiver.advance segment target held).state = .established →
        receiver.state = .established) := by
  simp only [advance, unfinished, Bool.false_eq_true, ↓reduceIte, true_and]
  intro stays
  exact stateAfterAck_established stays

theorem advance_closed (receiver : Receiver) (target : Seqnum) (held : Bool) (finished : segment.fin = true) :
    (receiver.advance segment target held).closed = true ∧
      (receiver.advance segment target held).pending = receiver.pending.take (if held then 1 else 0) ∧
      (receiver.advance segment target held).finsConsumed = receiver.finsConsumed + 1 ∧
      (receiver.advance segment target held).state ≠ .established := by
  simp only [advance, finished, ↓reduceIte, true_and]
  exact stateAfterFin_ne

end Receiver

section

variable {n off : Nat}

namespace Receiver

section

variable (rcvNxt : receiver.rcvNxt = after base n) (seq : segment.sequenceNumber = after base off)
  (near : off < n + 2 ^ 31)
include rcvNxt seq near

theorem consumeSegment_none
    (near' : n < off + 2 ^ 31) (waits : receiver.consumeSegment segment held = none) :
    n < off ∨ off < n ∧ off + segment.payload.length ≤ n := by
  have length := segment.payloadSize_toNat
  have short := segment.short
  unfold consumeSegment at waits
  simp only [rcvNxt, seq, length] at waits
  split at waits
  · split at waits
    · cases waits
    · rename_i outside
      rw [inWindow_after near' near (by omega)] at outside
      omega
  · split at waits
    · cases waits
    · rename_i differs
      rw [after_inj (by omega) (by omega)] at differs
      omega

theorem trim_spec (begun : off ≤ n) (unended : n < off + segment.payload.length) :
    ∃ trimmed : Segment, trimmed.sequenceNumber = after base n ∧ trimmed.fin = segment.fin ∧
      trimmed.payload = segment.payload.drop (n - off) ∧
      (if lessThan segment.sequenceNumber receiver.rcvNxt then
        segment.trimFront (size segment.sequenceNumber receiver.rcvNxt)
      else segment) = trimmed := by
  have short := segment.short
  rw [rcvNxt, seq]
  split
  · have diff : (size (after base off) (after base n)).toNat = n - off := size_after begun (by omega)
    refine ⟨segment.trimFront (size (after base off) (after base n)), ?_, rfl, ?_, rfl⟩
    · simp only [trimFront, seq, size]
      rw [BitVec.add_comm, sub_add_cancel]
    · simp only [trimFront, diff]
  · rename_i notBefore
    rw [lessThan_after near (by omega)] at notBefore
    have same : off = n := by omega
    exact ⟨segment, by rw [seq, same], rfl, by simp [same], rfl⟩

theorem consumeSegment_some
    (near' : n < off + 2 ^ 31) (consumed : receiver.consumeSegment segment held = some next) :
    off ≤ n ∧ n ≤ off + segment.payload.length ∧
      next.received = receiver.received ++ segment.payload.drop (n - off) ∧
      next.rcvNxt =
        after base (off + segment.payload.length + if segment.fin then 1 else 0) ∧
      ∃ before trimmed target, next = advance before trimmed target held ∧
        trimmed.fin = segment.fin ∧ before.closed = receiver.closed ∧
        before.pending = receiver.pending ∧ before.finsConsumed = receiver.finsConsumed := by
  have length := segment.payloadSize_toNat
  have short := segment.short
  have finished (target : Seqnum) (count : Nat) (known : target = after base count) :
      (if segment.fin then target + 1 else target) = after base (count + if segment.fin then 1 else 0) := by
    cases segment.fin with
    | false => simp [known]
    | true =>
      simp only [↓reduceIte, known, ← after_add]
      rfl
  unfold consumeSegment at consumed
  simp only [length] at consumed
  split at consumed
  · split at consumed
    · rename_i inside
      rw [rcvNxt, seq, inWindow_after near' near (by omega), length] at inside
      obtain ⟨trimmed, trimmedSeq, fin, payload, isTrimmed⟩ := trim_spec rcvNxt seq near inside.1 inside.2
      rw [isTrimmed] at consumed
      cases consumed
      have ends : add trimmed.sequenceNumber trimmed.payloadSize =
          after base (off + segment.payload.length) := by
        have size : trimmed.payloadSize = BitVec.ofNat 32 (off + segment.payload.length - n) := by
          rw [payloadSize, payload, List.length_drop]
          congr 1
          omega
        rw [add, trimmedSeq, size, after_add]
        congr 1
        omega
      refine ⟨inside.1, by omega, ?_, ?_, _, _, _, rfl, fin, rfl, rfl, rfl⟩
      · rw [advance_received]
        simp [received, readyToRead, payload]
      · rw [advance_rcvNxt, fin]
        exact finished _ _ ends
    · cases consumed
  · rename_i empty
    have none : segment.payload.length = 0 := by omega
    split at consumed
    · rename_i same
      cases consumed
      rw [rcvNxt, seq, after_inj (by omega) (by omega)] at same
      refine ⟨by omega, by omega, ?_, ?_, _, _, _, rfl, rfl, rfl, rfl, rfl⟩
      · rw [advance_received, List.length_eq_zero_iff.mp none]
        simp
      · rw [advance_rcvNxt]
        apply finished
        rw [add, seq, payloadSize, after_add]
    · cases consumed

end

end Receiver

end

/-- A segment that waits for bytes before it: it begins after the first `count` bytes of the stream,
within a window of them. -/
def Waits (stream : List Byte) (base : Seqnum) (count : Nat) (segment : Segment) : Prop :=
  ∃ off, segment.sequenceNumber = after base off ∧ count < off ∧ off ≤ count + 2 ^ 30 ∧
    segment.payload = (stream.drop off).take segment.payload.length

/-- The invariant between segments. -/
structure Receiver.OK (stream : List Byte) (base : Seqnum) (receiver : Receiver) : Prop where
  rcvNxt : receiver.rcvNxt = after base (receiver.received.length + receiver.finsConsumed)
  received : receiver.received <+: stream
  consumed : receiver.closed = true ↔ 0 < receiver.finsConsumed
  finished : receiver.closed = true → receiver.state ≠ .established ∧ receiver.pending = #[]
  pending : ∀ segment ∈ receiver.pending, Waits stream base receiver.received.length segment
  ordered : Heap.Ordered Segment.less receiver.pending

/-- The invariant of the loop over the heap. `count` is the number of bytes before the segment that
started it. -/
structure Receiver.Draining (stream : List Byte) (base : Seqnum) (count : Nat)
    (receiver : Receiver) : Prop where
  unfinished : receiver.closed = false
  none : receiver.finsConsumed = 0
  rcvNxt : receiver.rcvNxt = after base receiver.received.length
  received : receiver.received <+: stream
  lower : count ≤ receiver.received.length
  upper : receiver.received.length ≤ count + 2 ^ 30 + 2 ^ 16
  pending : ∀ segment ∈ receiver.pending, Waits stream base count segment
  ordered : Heap.Ordered Segment.less receiver.pending

variable {off : Nat}

theorem extends_stream {received payload : List Byte} (known : received <+: stream)
    (holds : payload = (stream.drop off).take payload.length) (begun : off ≤ received.length)
    (unended : received.length ≤ off + payload.length) :
    received ++ payload.drop (received.length - off) <+: stream ∧
      (received ++ payload.drop (received.length - off)).length = off + payload.length := by
  constructor
  · have front : received = stream.take received.length := List.prefix_iff_eq_take.mp known
    have rest : payload.drop (received.length - off) =
        (stream.drop received.length).take (payload.length - (received.length - off)) := by
      conv => lhs; rw [holds]
      rw [List.drop_take, List.drop_drop]
      congr 2
      omega
    rw [rest]
    conv => lhs; lhs; rw [front]
    rw [← List.take_add]
    exact List.take_prefix _ _
  · simp only [List.length_append, List.length_drop]
    omega

variable {count : Nat} {heap : Array Segment} {top : Segment}

theorem waits_ranks (waits : ∀ segment ∈ heap, Waits stream base count segment) :
    Heap.Ranks less (fun segment => (segment.sequenceNumber - after base count).toNat) heap := by
  intro first firstMember second secondMember
  obtain ⟨firstOff, firstSeq, firstLower, firstUpper, _⟩ := waits first firstMember
  obtain ⟨secondOff, secondSeq, secondLower, secondUpper, _⟩ := waits second secondMember
  have compared := @lessThan_after base firstOff secondOff (by omega) (by omega)
  have firstRank : (after base firstOff - after base count).toNat = firstOff - count :=
    size_after (by omega) (by omega)
  have secondRank : (after base secondOff - after base count).toNat = secondOff - count :=
    size_after (by omega) (by omega)
  rw [Bool.eq_iff_iff, decide_eq_true_iff]
  simp only [less, firstSeq, secondSeq, firstRank, secondRank, compared]
  omega

theorem pop_waits
    (waits : ∀ segment ∈ heap, Waits stream base count segment)
    (ordered : Heap.Ordered less heap) (first : heap[0]? = some top) :
    (∀ segment ∈ Heap.pop less heap, Waits stream base count segment) ∧
      Heap.Ordered less (Heap.pop less heap) ∧
      (Heap.pop less heap).size + 1 = heap.size := by
  have nonempty : 0 < heap.size := (Array.getElem?_eq_some_iff.mp first).1
  obtain ⟨_, perm, kept⟩ := Heap.pop_spec nonempty (waits_ranks waits) ordered
  refine ⟨fun segment member => waits segment ?_, kept, by rw [Heap.pop_size]; omega⟩
  rw [Array.mem_def] at member ⊢
  exact perm.mem_iff.mpr (List.mem_cons_of_mem _ member)

section

variable (draining : receiver.Draining stream base count)
include draining

theorem Receiver.Draining.ok
    (pending : ∀ segment ∈ receiver.pending, Waits stream base receiver.received.length segment) :
    receiver.OK stream base where
  rcvNxt := by rw [draining.none, Nat.add_zero, draining.rcvNxt]
  received := draining.received
  consumed := by simp [draining.unfinished, draining.none]
  finished := by simp [draining.unfinished]
  pending
  ordered := draining.ordered

theorem Receiver.Draining.stop (first : receiver.pending[0]? = some top)
    (seq : top.sequenceNumber = after base off)
    (topLower : count < off) (topUpper : off ≤ count + 2 ^ 30)
    (ahead : receiver.received.length < off) : receiver.OK stream base := by
  refine draining.ok fun segment member => ?_
  obtain ⟨segOff, segSeq, segLower, segUpper, holds⟩ := draining.pending segment member
  have least := Heap.first_le (waits_ranks draining.pending) draining.ordered first member
  have topRank : (after base off - after base count).toNat = off - count := size_after (by omega) (by omega)
  have segRank : (after base segOff - after base count).toNat = segOff - count :=
    size_after (by omega) (by omega)
  simp only [seq, segSeq, topRank, segRank] at least
  have lower := draining.lower
  exact ⟨segOff, segSeq, by omega, by omega, holds⟩

theorem Receiver.Draining.empty (empty : receiver.pending = #[]) : receiver.OK stream base :=
  draining.ok (by simp [empty])

end

/-- Where the receiver stands after a step of the loop, against where it stood: no bytes are lost,
and it has not moved far. -/
def Receiver.Follows (base : Seqnum) (count : Nat) (receiver next : Receiver) : Prop :=
  receiver.received <+: next.received ∧
    ∃ position, next.rcvNxt = after base position ∧ receiver.received.length ≤ position ∧
      position ≤ count + 2 ^ 30 + 2 ^ 16 + 1

theorem Receiver.consumed (rcvNxt : receiver.rcvNxt = after base receiver.received.length)
    (known : receiver.received <+: stream) (seq : segment.sequenceNumber = after base off)
    (holds : segment.payload = (stream.drop off).take segment.payload.length)
    (near : off < receiver.received.length + 2 ^ 31) (near' : receiver.received.length < off + 2 ^ 31)
    (consumed : receiver.consumeSegment segment held = some next) :
    next.received <+: stream ∧ receiver.received <+: next.received ∧
      next.received.length = off + segment.payload.length ∧
      (segment.fin = false → next.closed = receiver.closed ∧ next.pending = receiver.pending ∧
        next.finsConsumed = receiver.finsConsumed ∧
        next.rcvNxt = after base next.received.length) ∧
      (segment.fin = true → next.closed = true ∧
        next.pending = receiver.pending.take (if held then 1 else 0) ∧
        next.finsConsumed = receiver.finsConsumed + 1 ∧
        next.rcvNxt = after base (next.received.length + 1) ∧ next.state ≠ .established) := by
  obtain ⟨begun, unended, received, moved, before, trimmed, target, isNext, fin, closed, pending, fins⟩ :=
    Receiver.consumeSegment_some rcvNxt seq near near' consumed
  obtain ⟨isPrefix, length⟩ := extends_stream known holds begun unended
  rw [← received] at isPrefix length
  refine ⟨isPrefix, received ▸ List.prefix_append _ _, length, ?_, ?_⟩
  · intro unfinished
    obtain ⟨stays, same, sameFins, _⟩ := before.advance_open target held (fin.trans unfinished)
    rw [← isNext] at stays same sameFins
    exact ⟨stays.trans closed, same.trans pending, sameFins.trans fins,
      by simp [moved, length, unfinished]⟩
  · intro finished
    obtain ⟨ends, flushed, counted, left⟩ := before.advance_closed target held (fin.trans finished)
    rw [← isNext] at ends flushed counted left
    exact ⟨ends, by rw [flushed, pending], by rw [counted, fins], by simp [moved, length, finished], left⟩

/-- `segSeq.Add(segLen-1)`, for a segment that does not begin the stream. -/
theorem Segment.last_after (seq : segment.sequenceNumber = after base off) (positive : 0 < off) :
    add segment.sequenceNumber (segment.payloadSize - 1) =
      after base (off + segment.payload.length - 1) := by
  apply eq_of_toNat_eq
  have length := segment.payloadSize_toNat
  have one : BitVec.toNat (1 : BitVec 32) = 1 := rfl
  rw [seq]
  simp only [add, after, toNat_add, toNat_sub, toNat_ofNat, length, one]
  have short := segment.short
  omega

namespace Receiver

theorem Follows.trans {middle : Receiver} (first : receiver.received <+: middle.received)
    (second : middle.Follows base count next) : receiver.Follows base count next := by
  obtain ⟨more, position, isNext, lower, upper⟩ := second
  have length := first.length_le
  exact ⟨first.trans more, position, isNext, by omega, upper⟩

theorem finished_ok (known : receiver.received <+: stream)
    (rcvNxt : receiver.rcvNxt = after base (receiver.received.length + receiver.finsConsumed))
    (closed : receiver.closed = true) (consumed : 0 < receiver.finsConsumed)
    (left : receiver.state ≠ .established)
    (empty : receiver.pending = #[]) : receiver.OK stream base where
  rcvNxt := rcvNxt
  received := known
  consumed := by simp [closed, consumed]
  finished := fun _ => ⟨left, empty⟩
  pending := by simp [empty]
  ordered := empty ▸ Heap.empty_ordered

theorem drain_closed (closed : receiver.closed = true) (fuel : Nat) : receiver.drain fuel = receiver := by
  cases fuel <;> simp [drain, closed]

theorem drain_spec {fuel : Nat} (draining : receiver.Draining stream base count)
    (enough : receiver.pending.size ≤ fuel) :
    (receiver.drain fuel).OK stream base ∧
      receiver.Follows base count (receiver.drain fuel) := by
  have lower := draining.lower
  have upper := draining.upper
  have stays : receiver.Follows base count receiver := ⟨List.prefix_rfl, _, draining.rcvNxt, Nat.le_refl _, by omega⟩
  induction fuel generalizing receiver with
  | zero =>
    have empty : receiver.pending = #[] := Array.size_eq_zero_iff.mp (by omega)
    exact ⟨draining.empty empty, stays⟩
  | succ fuel ih =>
    unfold drain
    simp only [draining.unfinished, Bool.false_eq_true, ↓reduceIte]
    cases first : receiver.pending[0]? with
    | none =>
      have empty : receiver.pending = #[] := by simpa using first
      exact ⟨draining.empty empty, stays⟩
    | some top =>
      have member : top ∈ receiver.pending := Array.mem_of_getElem? first
      obtain ⟨off, seq, topLower, topUpper, holds⟩ := draining.pending top member
      obtain ⟨waits, ordered, smaller⟩ := pop_waits draining.pending draining.ordered first
      have short := top.short
      simp only
      split
      · -- the segment has been received already
        have popped : (receiver.popPending top).Draining stream base count :=
          ⟨draining.unfinished, draining.none, draining.rcvNxt, draining.received, lower, upper, waits,
            ordered⟩
        have room : (receiver.popPending top).pending.size ≤ fuel := by
          simp only [popPending]
          omega
        exact ih popped room lower upper stays
      rename_i notPast
      cases attempt : receiver.consumeSegment top true with
      | none =>
        have position := consumeSegment_none draining.rcvNxt seq (by omega) (by omega) attempt
        rw [last_after seq (by omega), draining.rcvNxt, lessThan_after (by omega) (by omega)] at notPast
        exact ⟨draining.stop first seq topLower topUpper (by omega), stays⟩
      | some next =>
        obtain ⟨known, more, length, unfinished, finished⟩ := consumed
          draining.rcvNxt draining.received seq holds (by omega) (by omega) attempt
        have longer := more.length_le
        cases fin : top.fin with
        | false =>
          obtain ⟨closed, pending, fins, rcvNxt⟩ := unfinished fin
          have popped : (next.popPending top).Draining stream base count :=
            { unfinished := closed.trans draining.unfinished
              none := fins.trans draining.none
              rcvNxt
              received := known
              lower := Nat.le_trans lower longer
              upper := by
                have same : (next.popPending top).received = next.received := rfl
                rw [same]
                omega
              pending := by
                simp only [popPending, pending]
                exact waits
              ordered := by
                simp only [popPending, pending]
                exact ordered }
          have room : (next.popPending top).pending.size ≤ fuel := by
            simp only [popPending, pending]
            omega
          obtain ⟨ok, follows⟩ := ih popped room popped.lower popped.upper
            ⟨List.prefix_rfl, _, popped.rcvNxt, Nat.le_refl _, by
              have bound := popped.upper
              omega⟩
          exact ⟨ok, .trans more follows⟩
        | true =>
          obtain ⟨closed, pending, fins, rcvNxt, left⟩ := finished fin
          have empty : (next.popPending top).pending = #[] := by
            have one : (receiver.pending.take 1).size ≤ 1 := by
              rw [Array.take, Array.size_extract]
              omega
            apply Array.size_eq_zero_iff.mp
            simp only [popPending, Heap.pop_size, pending, ↓reduceIte]
            omega
          have isClosed : (next.popPending top).closed = true := closed
          have one : (next.popPending top).finsConsumed = 1 := by
            simp only [popPending, fins, draining.none]
          simp only
          rw [drain_closed isClosed]
          refine ⟨finished_ok known ?_ closed (by omega) left empty, more, _, rcvNxt, by omega, by omega⟩
          rw [one]
          exact rcvNxt

/-- Between two states of the receiver no byte is lost and the next number expected does not move
back. -/
def Grows (receiver next : Receiver) : Prop :=
  receiver.received <+: next.received ∧ lessThan next.rcvNxt receiver.rcvNxt = false

theorem Grows.refl (receiver : Receiver) : receiver.Grows receiver := by
  refine ⟨List.prefix_rfl, ?_⟩
  simp [lessThan]

theorem Follows.grows {n : Nat} (rcvNxt : receiver.rcvNxt = after base n)
    (same : n = receiver.received.length) (follows : receiver.Follows base n next) :
    receiver.Grows next := by
  obtain ⟨more, position, isNext, lower, upper⟩ := follows
  refine ⟨more, ?_⟩
  rw [rcvNxt, isNext, Bool.eq_false_iff, ne_eq, lessThan_after (by omega) (by omega)]
  omega

theorem OK.open_rcvNxt (ok : receiver.OK stream base) (unfinished : receiver.closed = false) :
    receiver.finsConsumed = 0 ∧ receiver.rcvNxt = after base receiver.received.length := by
  have none : receiver.finsConsumed = 0 := by
    have consumed := ok.consumed
    rw [unfinished] at consumed
    simpa using consumed
  refine ⟨none, ?_⟩
  rw [ok.rcvNxt, none, Nat.add_zero]

theorem agrees_offset (rcvNxt : receiver.rcvNxt = after base receiver.received.length)
    (agrees : Agrees stream receiver segment)
    (accepted : receiver.acceptable segment.sequenceNumber segment.payloadSize = true) :
    ∃ off, segment.sequenceNumber = after base off ∧
      off ≤ receiver.received.length + 2 ^ 30 ∧
      (segment.payload.length = 0 → receiver.received.length ≤ off) ∧
      (0 < segment.payload.length →
        receiver.received.length < off + segment.payload.length) ∧
      segment.payload = (stream.drop off).take segment.payload.length := by
  obtain ⟨far, emptyNear, fullNear⟩ := acceptable_near accepted
  rcases agrees with empty | ⟨positive, holds⟩
  · have none : segment.payload.length = 0 := by rw [empty]; rfl
    have ahead := emptyNear none
    refine ⟨_, eq_after rcvNxt (by omega), ?_, ?_, ?_, ?_⟩
    · omega
    · omega
    · omega
    · simp [empty]
  refine ⟨_, eq_after rcvNxt positive, ?_, ?_, ?_, holds⟩
  · omega
  · intro none
    have ahead := emptyNear none
    omega
  · intro some
    have ahead := fullNear some
    omega

theorem store_ok (ok : receiver.OK stream base)
    (unfinished : receiver.closed = false) (seq : segment.sequenceNumber = after base off)
    (ahead : receiver.received.length < off) (near : off ≤ receiver.received.length + 2 ^ 30)
    (holds : segment.payload = (stream.drop off).take segment.payload.length) :
    (receiver.store segment).OK stream base ∧ receiver.Grows (receiver.store segment) := by
  unfold store
  split
  · have waits : ∀ waiting ∈ receiver.pending.push segment,
        Waits stream base receiver.received.length waiting := by
      intro waiting member
      rcases Array.mem_push.mp member with old | rfl
      · exact ok.pending waiting old
      · exact ⟨off, seq, ahead, near, holds⟩
    obtain ⟨perm, ordered⟩ := Heap.push_spec (waits_ranks waits) ok.ordered
    refine ⟨⟨ok.rcvNxt, ok.received, ok.consumed, by simp [unfinished], ?_, ordered⟩,
      Grows.refl receiver⟩
    intro waiting member
    apply waits
    rw [Array.mem_push]
    rcases List.mem_cons.mp (perm.mem_iff.mp (Array.mem_def.mp member)) with rfl | old
    · exact .inr rfl
    · exact .inl (Array.mem_def.mpr old)
  · exact ⟨ok, Grows.refl receiver⟩

theorem accept_open (ok : receiver.OK stream base)
    (unfinished : receiver.closed = false) (agrees : Agrees stream receiver segment)
    (accepted : receiver.acceptable segment.sequenceNumber segment.payloadSize = true) :
    (receiver.consumeSegment segment false = none →
      (receiver.store segment).OK stream base ∧ receiver.Grows (receiver.store segment)) ∧
    ∀ next, receiver.consumeSegment segment false = some next →
      (next.drain next.pending.size).OK stream base ∧
        receiver.Grows (next.drain next.pending.size) := by
  obtain ⟨none, rcvNxt⟩ := ok.open_rcvNxt unfinished
  obtain ⟨off, seq, near, emptyNear, fullNear, holds⟩ := agrees_offset rcvNxt agrees accepted
  have short := segment.short
  constructor
  · intro waits
    have position := consumeSegment_none rcvNxt seq (by omega) (by omega) waits
    exact store_ok ok unfinished seq (by omega) near holds
  · intro next consumed
    obtain ⟨known, more, length, whenOpen, whenFin⟩ :=
      Receiver.consumed rcvNxt ok.received seq holds (by omega) (by omega) consumed
    have longer := more.length_le
    cases fin : segment.fin with
    | false =>
      obtain ⟨closed, pending, fins, moved⟩ := whenOpen fin
      have draining : next.Draining stream base receiver.received.length :=
        ⟨closed.trans unfinished, fins.trans none, moved, known, longer, by omega,
          pending ▸ ok.pending, pending ▸ ok.ordered⟩
      obtain ⟨kept, follows⟩ := drain_spec draining (Nat.le_refl _)
      exact ⟨kept, (Follows.trans more follows).grows rcvNxt rfl⟩
    | true =>
      obtain ⟨closed, pending, fins, moved, left⟩ := whenFin fin
      rw [drain_closed closed]
      have empty : next.pending = #[] := by
        rw [pending]
        simp
      have one : next.finsConsumed = 1 := by rw [fins, none]
      refine ⟨finished_ok known (by rw [one, moved]) closed (by omega) left empty, ?_⟩
      exact Follows.grows rcvNxt rfl ⟨more, _, moved, by omega, by omega⟩

theorem closed_passes (closed : receiver.closed = true)
    (accepted : receiver.acceptable segment.sequenceNumber segment.payloadSize = true)
    (passes : receiver.handleRcvdSegmentClosing segment = .go) :
    segment.payload = [] ∧ segment.sequenceNumber = receiver.rcvNxt := by
  obtain ⟨far, emptyNear, fullNear⟩ := acceptable_near accepted
  have length := segment.payloadSize_toNat
  have short := segment.short
  have past : lessThanEq (add segment.sequenceNumber segment.payloadSize)
      receiver.rcvNxt = true := by
    unfold handleRcvdSegmentClosing at passes
    simp only [closed, Bool.or_true, Bool.true_and] at passes
    split at passes
    · split at passes
      · cases passes
      · rename_i reached
        simpa using reached
    · rename_i stops
      exact absurd passes stops
  simp only [lessThanEq, Bool.or_eq_true, beq_iff_eq, lessThan_iff, add,
    ← toNat_inj, toNat_sub, toNat_add] at past
  rw [toInt_eq_toNat_cond] at far emptyNear fullNear
  simp only [toNat_sub] at far emptyNear fullNear
  have seqBound := segment.sequenceNumber.isLt
  have nxtBound := receiver.rcvNxt.isLt
  rw [← List.length_eq_zero_iff, ← toNat_inj]
  omega

end Receiver

namespace Receiver

theorem accept_closed (ok : receiver.OK stream base)
    (closed : receiver.closed = true) (empty : segment.payload = [])
    (seq : segment.sequenceNumber = receiver.rcvNxt) :
    ∃ next, receiver.consumeSegment segment false = some next ∧ next.closed = true ∧
      next.OK stream base ∧ receiver.Grows next := by
  have none : segment.payloadSize = 0 := by rw [payloadSize, empty]; rfl
  have target : add segment.sequenceNumber segment.payloadSize = receiver.rcvNxt := by
    rw [none, seq, add]
    exact BitVec.add_zero _
  refine ⟨receiver.advance segment receiver.rcvNxt false, ?_, ?_⟩
  · simp only [consumeSegment, target]
    rw [if_neg (by rw [none]; decide), if_pos seq]
  · have same := receiver.advance_received segment receiver.rcvNxt false
    have moved := receiver.advance_rcvNxt segment receiver.rcvNxt false
    obtain ⟨left, flushed⟩ := ok.finished closed
    have some := ok.consumed.mp closed
    cases fin : segment.fin with
    | false =>
      obtain ⟨stays, pending, fins, state⟩ := receiver.advance_open receiver.rcvNxt false fin
      simp only [fin, Bool.false_eq_true, ↓reduceIte] at moved
      generalize receiver.advance segment receiver.rcvNxt false = next at *
      have isClosed : next.closed = true := stays.trans closed
      have here : next.rcvNxt = after base (next.received.length + next.finsConsumed) := by
        rw [moved, same, fins, ok.rcvNxt]
      refine ⟨isClosed, finished_ok (same ▸ ok.received) here isClosed (by omega)
        (fun now => left (state now)) (pending.trans flushed), same ▸ List.prefix_rfl, ?_⟩
      rw [moved]
      exact (Grows.refl receiver).2
    | true =>
      obtain ⟨isClosed, pending, fins, leaves⟩ := receiver.advance_closed receiver.rcvNxt false fin
      simp only [fin, ↓reduceIte] at moved
      generalize receiver.advance segment receiver.rcvNxt false = next at *
      have none : next.pending = #[] := by
        rw [pending, flushed]
        rfl
      have forward : next.rcvNxt =
          after base (receiver.received.length + receiver.finsConsumed + 1) := by
        rw [moved, ok.rcvNxt]
        exact after_add 1
      have here : next.rcvNxt = after base (next.received.length + next.finsConsumed) := by
        rw [forward, same, fins, Nat.add_assoc]
      refine ⟨isClosed, finished_ok (same ▸ ok.received) here isClosed (by omega) leaves none,
        same ▸ List.prefix_rfl, ?_⟩
      rw [forward, ok.rcvNxt, Bool.eq_false_iff, ne_eq, lessThan_after (by omega) (by omega)]
      omega

theorem handleRcvdSegment_ok (ok : receiver.OK stream base)
    (agrees : receiver.closed = true ∨ Agrees stream receiver segment) :
    (receiver.handleRcvdSegment segment).1.OK stream base ∧
      receiver.Grows (receiver.handleRcvdSegment segment).1 := by
  unfold handleRcvdSegment
  split
  · rename_i accepted
    cases closed : receiver.closed with
    | true =>
      have left := (ok.finished closed).1
      simp only [left, ↓reduceIte]
      cases passes : receiver.handleRcvdSegmentClosing segment with
      | go =>
        obtain ⟨empty, seq⟩ := closed_passes closed accepted passes
        obtain ⟨next, consumed, isClosed, kept, grows⟩ := accept_closed ok closed empty seq
        simp only [consumed, drain_closed isClosed]
        exact ⟨kept, grows⟩
      | drop | abort => exact ⟨ok, Grows.refl receiver⟩
    | false =>
      have holds : Agrees stream receiver segment := by simpa [closed] using agrees
      obtain ⟨waits, consumes⟩ := accept_open ok closed holds accepted
      simp only
      split
      · cases attempt : receiver.consumeSegment segment false with
        | none =>
          simp only
          split
          · exact waits attempt
          · exact ⟨ok, Grows.refl receiver⟩
        | some next => exact consumes next attempt
      · exact ⟨ok, Grows.refl receiver⟩
  · exact ⟨ok, Grows.refl receiver⟩

theorem step_ok {event : Event} (ok : receiver.OK stream base)
    (stepped : receiver.step stream event = some next) :
    next.OK stream base ∧ receiver.Grows next := by
  cases event with
  | segment segment =>
    simp only [step] at stepped
    split at stepped <;> cases stepped
    rename_i agrees
    exact handleRcvdSegment_ok ok agrees
  | moveTo state =>
    simp only [step] at stepped
    split at stepped <;> cases stepped
    rename_i leaves
    refine ⟨⟨ok.rcvNxt, ok.received, ok.consumed, ?_, ok.pending, ok.ordered⟩, Grows.refl receiver⟩
    exact fun closed => ⟨leaves, (ok.finished closed).2⟩
  | _ =>
    cases stepped
    exact ⟨⟨ok.rcvNxt, ok.received, ok.consumed, ok.finished, ok.pending, ok.ordered⟩,
      Grows.refl receiver⟩

end Receiver

theorem newReceiver_ok (irs : Seqnum) (rcvWnd : BitVec 32)
    (rcvWndScale : Fin (maxWndScale + 1)) (sndNxt : Seqnum) (rcvBufSize : Int) :
    (newReceiver irs rcvWnd rcvWndScale sndNxt rcvBufSize).OK stream (irs + 1) where
  rcvNxt := (BitVec.add_zero _).symm
  received := List.nil_prefix
  consumed := by simp [newReceiver]
  finished := nofun
  pending := by simp [newReceiver]
  ordered := Heap.empty_ordered

/-- In every run over segments that agree with a stream, what was appended to the read queue is the
stream from the first byte up to the next number expected, where each consumed FIN takes one number;
and no step loses a byte or moves that number back. -/
theorem receiver_reassembles {irs : Seqnum} {rcvWnd : BitVec 32}
    {rcvWndScale : Fin (maxWndScale + 1)} {sndNxt : Seqnum} {rcvBufSize : Int}
    (reaches : Reaches (Receiver.step stream)
      (newReceiver irs rcvWnd rcvWndScale sndNxt rcvBufSize) receiver) :
    (receiver.received <+: stream ∧
      receiver.rcvNxt = irs + 1 + BitVec.ofNat 32 (receiver.received.length + receiver.finsConsumed) ∧
      (receiver.closed = true ↔ 0 < receiver.finsConsumed)) ∧
    ∀ event next, receiver.step stream event = some next →
      receiver.received <+: next.received ∧
        Seqnum.lessThan next.rcvNxt receiver.rcvNxt = false := by
  have ok := reaches.invariant (Receiver.OK stream (irs + 1))
    (fun _ _ _ kept stepped => (Receiver.step_ok kept stepped).1)
    (newReceiver_ok irs rcvWnd rcvWndScale sndNxt rcvBufSize)
  refine ⟨⟨ok.received, ok.rcvNxt, ok.consumed⟩, ?_⟩
  exact fun event next stepped => (Receiver.step_ok ok stepped).2

/-- Two segments that overlap and arrive in the wrong order. The one that waits carries the FIN. -/
def swapped : List Event :=
  [.segment
      { sequenceNumber := 102, ackNumber := 500, syn := false, fin := true, ack := true,
        payload := [2, 3], segMemSize := 100, short := by decide },
    .segment
      { sequenceNumber := 101, ackNumber := 500, syn := false, fin := false, ack := true,
        payload := [1, 2], segMemSize := 100, short := by decide }]

def reassembled : Receiver :=
  { newReceiver 100 65535 0 500 100000 with
    rcvNxt := 105
    closed := true
    finsConsumed := 1
    rcvClosed := true
    state := .closeWait
    rcvQueue :=
      [{ sequenceNumber := 101, ackNumber := 500, syn := false, fin := false, ack := true,
         payload := [1, 2], segMemSize := 100, short := by decide },
        { sequenceNumber := 103, ackNumber := 500, syn := false, fin := true, ack := true,
          payload := [3], segMemSize := 100, short := by decide }] }

theorem receiver_reassembles_swapped :
    Reaches (Receiver.step [1, 2, 3]) (newReceiver 100 65535 0 500 100000) reassembled ∧
      reassembled.received = [1, 2, 3] ∧ reassembled.received <+: [1, 2, 3] ∧
      reassembled.rcvNxt =
        100 + 1 + BitVec.ofNat 32 (reassembled.received.length + reassembled.finsConsumed) ∧
      (reassembled.closed = true ↔ 0 < reassembled.finsConsumed) := by
  have reaches : Reaches (Receiver.step [1, 2, 3]) (newReceiver 100 65535 0 500 100000)
      reassembled := ⟨swapped, by decide⟩
  exact ⟨reaches, rfl, (receiver_reassembles reaches).1⟩

end BVisor.Tcp
