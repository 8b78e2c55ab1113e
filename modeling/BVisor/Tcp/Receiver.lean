import BVisor.Data.Heap
import BVisor.Data.Run
import BVisor.Tcp.Seqnum

/-! The receiving side of a connection: which segments are accepted, what is appended to the read
queue and what waits in the heap of segments that came out of order. Acknowledgements, SACK blocks
and the measurement of round trips, which depend on these and do not act back on them, are left
out. -/

namespace BVisor.Tcp

open Data

abbrev Byte := BitVec 8

inductive EndpointState where
  | established | finWait1 | finWait2 | closeWait | closing | lastAck | timeWait | close | error
deriving DecidableEq

/-- A received segment. Its payload is what a packet with 16-bit lengths can carry. -/
structure Segment where
  sequenceNumber : Seqnum
  ackNumber : Seqnum
  syn : Bool
  fin : Bool
  ack : Bool
  payload : List Byte
  segMemSize : Int
  short : payload.length < 2 ^ 16
deriving DecidableEq

def Segment.payloadSize (segment : Segment) : BitVec 32 :=
  BitVec.ofNat 32 segment.payload.length

def Segment.logicalLen (segment : Segment) : BitVec 32 :=
  segment.payloadSize + (if segment.syn then 1 else 0) + (if segment.fin then 1 else 0)

def Segment.trimFront (segment : Segment) (count : BitVec 32) : Segment :=
  { segment with
    sequenceNumber := segment.sequenceNumber + count
    payload := segment.payload.drop count.toNat
    short := by
      have short := segment.short
      rw [List.length_drop]
      omega }

def Segment.less (first second : Segment) : Bool :=
  Seqnum.lessThan first.sequenceNumber second.sequenceNumber

def maxWndScale : Nat := 14

-- Comes before the instance for sums, whose proof every literal scale would carry.
instance (priority := 2000) : NeZero (maxWndScale + 1) := ⟨Nat.succ_ne_zero _⟩

/-- The `receiver` with what it reads of its endpoint: `finSent` and `sndNxt` are the sender's,
`rcvQueue` holds every segment that was ever appended to the read queue, and `finsConsumed` counts
the FINs that were consumed, which the code does not keep. -/
structure Receiver where
  rcvNxt : Seqnum
  rcvAcc : Seqnum
  rcvWnd : BitVec 32
  rcvWndScale : Fin (maxWndScale + 1)
  closed : Bool
  pending : Array Segment
  pendingBufUsed : Int
  rcvQueue : List Segment
  finsConsumed : Nat
  rcvClosed : Bool
  state : EndpointState
  epClosed : Bool
  finSent : Bool
  sndNxt : Seqnum
  rcvBufSize : Int
deriving DecidableEq

def newReceiver (irs : Seqnum) (rcvWnd : BitVec 32) (rcvWndScale : Fin (maxWndScale + 1))
    (sndNxt : Seqnum) (rcvBufSize : Int) : Receiver :=
  { rcvNxt := irs + 1
    rcvAcc := irs + (rcvWnd + 1)
    rcvWnd
    rcvWndScale
    closed := false
    pending := #[]
    pendingBufUsed := 0
    rcvQueue := []
    finsConsumed := 0
    rcvClosed := false
    state := .established
    epClosed := false
    finSent := false
    sndNxt
    rcvBufSize }

def Acceptable (segSeq : Seqnum) (segLen : BitVec 32) (rcvNxt rcvAcc : Seqnum) : Bool :=
  if rcvNxt = rcvAcc then segLen == 0 && segSeq == rcvNxt
  else if segLen = 0 then Seqnum.inRange segSeq rcvNxt (Seqnum.add rcvAcc 1)
  else Seqnum.lessThan rcvNxt (Seqnum.add segSeq segLen) && Seqnum.lessThanEq segSeq rcvAcc

def Receiver.advertisedWindowSize (receiver : Receiver) : BitVec 32 :=
  let scaledWindowSize := receiver.rcvWnd >>> receiver.rcvWndScale.val
  let capped := if scaledWindowSize.toNat > 0xffff then 0xffff else scaledWindowSize
  capped <<< receiver.rcvWndScale.val

def Receiver.acceptable (receiver : Receiver) (segSeq : Seqnum) (segLen : BitVec 32) : Bool :=
  Acceptable segSeq segLen receiver.rcvNxt (Seqnum.add receiver.rcvNxt receiver.advertisedWindowSize)

def Receiver.readyToRead (receiver : Receiver) (segment : Segment) : Receiver :=
  { receiver with rcvQueue := receiver.rcvQueue ++ [segment] }

def Receiver.acksFin (receiver : Receiver) (segment : Segment) : Bool :=
  segment.ack && receiver.finSent && segment.ackNumber == receiver.sndNxt

def Receiver.stateAfterFin (receiver : Receiver) (segment : Segment) : EndpointState :=
  match receiver.state with
  | .established => .closeWait
  | .finWait1 => if receiver.acksFin segment then .timeWait else .closing
  | .finWait2 => .timeWait
  | state => state

def Receiver.stateAfterAck (receiver : Receiver) (segment : Segment) : EndpointState :=
  if receiver.acksFin segment then
    match receiver.state with
    | .finWait1 => .finWait2
    | .closing => .timeWait
    | .lastAck => .close
    | state => state
  else receiver.state

def memUsed (segments : List Segment) : Int :=
  (segments.map Segment.segMemSize).sum

/-- The end of `consumeSegment`. `held` tells whether the segment is the first of the heap, which is
then not flushed. -/
def Receiver.advance (receiver : Receiver) (segment : Segment) (next : Seqnum) (held : Bool) : Receiver :=
  let receiver :=
    { receiver with
      rcvNxt := next
      rcvAcc := if Seqnum.lessThan receiver.rcvAcc next then next else receiver.rcvAcc }
  if segment.fin then
    let first := if held then 1 else 0
    { receiver with
      rcvNxt := receiver.rcvNxt + 1
      closed := true
      finsConsumed := receiver.finsConsumed + 1
      rcvClosed := true
      state := receiver.stateAfterFin segment
      pendingBufUsed := receiver.pendingBufUsed - memUsed (receiver.pending.toList.drop first)
      pending := receiver.pending.take first }
  else { receiver with state := receiver.stateAfterAck segment }

/-- `none` if the segment cannot be consumed yet. -/
def Receiver.consumeSegment (receiver : Receiver) (segment : Segment) (held : Bool) : Option Receiver :=
  let segSeq := segment.sequenceNumber
  let segLen := segment.payloadSize
  if 0 < segLen.toNat then
    if Seqnum.inWindow receiver.rcvNxt segSeq segLen then
      let trimmed :=
        if Seqnum.lessThan segSeq receiver.rcvNxt then
          segment.trimFront (Seqnum.size segSeq receiver.rcvNxt)
        else segment
      some ((receiver.readyToRead trimmed).advance trimmed
        (Seqnum.add trimmed.sequenceNumber trimmed.payloadSize) held)
    else none
  else if segSeq = receiver.rcvNxt then
    some (receiver.advance segment (Seqnum.add segSeq segLen) held)
  else none

inductive Verdict where
  | go | drop | abort
deriving DecidableEq

/-- The checks of the shutdown states, up to the break out of the switch. -/
def Receiver.closingChecks (receiver : Receiver) (segment : Segment) (rcvClosed : Bool) : Verdict :=
  let endDataSeq := Seqnum.add segment.sequenceNumber segment.payloadSize
  let endSeq := Seqnum.add segment.sequenceNumber segment.logicalLen
  if Seqnum.lessThan receiver.sndNxt segment.ackNumber then .drop
  else if receiver.state ≠ .closeWait ∧ rcvClosed ∧
      Seqnum.lessThan receiver.rcvNxt endDataSeq then .abort
  else if receiver.state = .finWait1 then .go
  else if Seqnum.lessThanEq endSeq receiver.rcvNxt ∨ segment.logicalLen = 0 then .go
  else if receiver.epClosed ∧ (segment.fin = false ∨ endSeq ≠ receiver.rcvNxt + 1) then .abort
  else .go

def Receiver.handleRcvdSegmentClosing (receiver : Receiver) (segment : Segment) : Verdict :=
  let rcvClosed := receiver.rcvClosed || receiver.closed
  let verdict :=
    match receiver.state with
    | .closeWait | .closing | .lastAck =>
      if Seqnum.lessThanEq segment.sequenceNumber receiver.rcvNxt then
        receiver.closingChecks segment rcvClosed
      else .drop
    | .finWait1 | .finWait2 => receiver.closingChecks segment rcvClosed
    | _ => .go
  match verdict with
  | .go =>
    let segEnd := Seqnum.add segment.sequenceNumber segment.payloadSize
    if rcvClosed && !Seqnum.lessThanEq segEnd receiver.rcvNxt then .drop else .go
  | other => other

/-- Storing a segment that came out of order, if the buffer has room for it. -/
def Receiver.store (receiver : Receiver) (segment : Segment) : Receiver :=
  if 0 < receiver.rcvBufSize ∧
      receiver.pendingBufUsed + segment.payload.length < receiver.rcvBufSize - receiver.rcvBufSize / 4 then
    { receiver with
      pendingBufUsed := receiver.pendingBufUsed + segment.segMemSize
      pending := Heap.push Segment.less receiver.pending segment }
  else receiver

def Receiver.popPending (receiver : Receiver) (segment : Segment) : Receiver :=
  { receiver with
    pending := Heap.pop Segment.less receiver.pending
    pendingBufUsed := receiver.pendingBufUsed - segment.segMemSize }

def Receiver.drain : Nat → Receiver → Receiver
  | 0, receiver => receiver
  | fuel + 1, receiver =>
    if receiver.closed then receiver
    else
      match receiver.pending[0]? with
      | none => receiver
      | some segment =>
        let lastSeq := Seqnum.add segment.sequenceNumber (segment.payloadSize - 1)
        if Seqnum.lessThan lastSeq receiver.rcvNxt then
          drain fuel (receiver.popPending segment)
        else
          match receiver.consumeSegment segment true with
          | none => receiver
          | some next => drain fuel (next.popPending segment)

/-- The receiver after a segment, and whether the segment is passed on to the sender, dropped, or
aborts the connection. -/
def Receiver.handleRcvdSegment (receiver : Receiver) (segment : Segment) : Receiver × Verdict :=
  if receiver.acceptable segment.sequenceNumber segment.payloadSize then
    let verdict :=
      if receiver.state = .established then .go
      else receiver.handleRcvdSegmentClosing segment
    match verdict with
    | .go =>
      match receiver.consumeSegment segment false with
      | none =>
        if 0 < segment.payload.length ∨ segment.fin then (receiver.store segment, .go)
        else (receiver, .go)
      | some next => (next.drain next.pending.size, .go)
    | other => (receiver, other)
  else (receiver, .drop)

end BVisor.Tcp
