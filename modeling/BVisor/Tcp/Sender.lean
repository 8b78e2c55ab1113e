import BVisor.Tcp.SendSpace

/-! The sending side of a connection: the list of segments that wait to be sent or acknowledged, and
what every entry point of the sender does with it. The clock, the estimates of round trips and the
congestion control module are not modelled: where the source asks them, the answer is an input. A
timer that may be armed can expire at any time. -/

namespace BVisor.Tcp

open Data Seqnum

/-- The flags of a segment in the write list. None is set before it has a sequence number. -/
structure Flags where
  ack : Bool
  psh : Bool
  fin : Bool
deriving DecidableEq

structure OutgoingSegment where
  sequenceNumber : Seqnum
  flags : Flags
  payload : List Byte
  xmitCount : Nat
  lost : Bool
deriving DecidableEq

def newOutgoingSegment (payload : List Byte) : OutgoingSegment :=
  { sequenceNumber := 0, flags := ⟨false, false, false⟩, payload, xmitCount := 0, lost := false }

namespace OutgoingSegment

variable (seg : OutgoingSegment)

def isAssignedSequenceNumber : Bool := seg.flags != ⟨false, false, false⟩

def logicalLen : Nat := seg.payload.length + if seg.flags.fin then 1 else 0

def sackBlock : SACKBlock :=
  ⟨seg.sequenceNumber, Seqnum.add seg.sequenceNumber (BitVec.ofNat 32 seg.logicalLen)⟩

def pCount (maxPayloadSize : Nat) : Nat :=
  if seg.payload.length = 0 then 1 else (seg.payload.length - 1) / maxPayloadSize + 1

end OutgoingSegment

/-- A packet handed to `sendSegmentFromPacketBuffer`, and which of the two callers sent it. -/
structure Packet where
  seq : Seqnum
  flags : Flags
  payload : List Byte
  zeroWindowProbe : Bool
deriving DecidableEq

structure FastRecovery where
  active : Bool
  first : Seqnum
  last : Seqnum
  highRxt : Seqnum
  rescueRxt : Seqnum
deriving DecidableEq

/-- The sender with what it reads of its endpoint. `writeNext` is a position of the write list; the
position after its end stands for no segment. `gsoNone` and `gsoLimit` are the endpoint's
segmentation offload, `rack` its loss detection by RACK. `wire` holds every packet that was sent. -/
structure Sender (tree : OrderedTree SACKBlock) where
  space : SendSpace tree
  writeList : List OutgoingSegment
  writeNext : Nat
  maxPayloadSize : Nat
  maxRetries : Nat
  gso : Bool
  gsoNone : Bool
  gsoLimit : Nat
  rack : Bool
  delayOption : Bool
  corkOption : Bool
  startCork : Bool
  corkTimer : Bool
  probeTimer : Bool
  fastRecovery : FastRecovery
  dupAckCount : Nat
  tlpRxtOut : Bool
  tlpHighRxt : Seqnum
  zeroWindowProbing : Bool
  unackZeroWindowProbes : Nat
  egressL7Hold : Bool
  wire : List Packet

/-- The places where the source gives up. -/
inductive Panic where
  | emptyWriteList | finNotLast | finWithData
deriving DecidableEq

structure Congestion where
  outstanding : Int
  sndCwnd : Int
deriving DecidableEq

def Congestion.room (congestion : Congestion) : Nat :=
  (congestion.sndCwnd - congestion.outstanding).toNat

namespace Sender

variable {tree : OrderedTree SACKBlock} (s : Sender tree)

def front? : Option OutgoingSegment := s.writeList[0]?

def nextSeg? : Option OutgoingSegment := s.writeList[s.writeNext]?

def setSegment (index : Nat) (seg : OutgoingSegment) : Sender tree :=
  { s with writeList := s.writeList.set index seg }

/-- `splitSeg`. The new segment is a clone, which is not marked as lost. -/
def splitSeg (index size : Nat) : Sender tree :=
  match s.writeList[index]? with
  | none => s
  | some seg =>
    if seg.payload.length ≤ size then s
    else
      let nSeg := { seg with
        payload := seg.payload.drop size
        sequenceNumber := seg.sequenceNumber + BitVec.ofNat 32 size
        lost := false }
      let flags := if seg.payload.length > s.maxPayloadSize then
        { seg.flags with psh := !seg.flags.psh } else seg.flags
      { s with
        writeList := s.writeList.take index ++
          { seg with payload := seg.payload.take size, flags } :: nSeg :: s.writeList.drop (index + 1)
        writeNext := if index < s.writeNext then s.writeNext + 1 else s.writeNext }

def sendSegment (index : Nat) : Sender tree :=
  match s.writeList[index]? with
  | none => s
  | some seg =>
    { s.setSegment index { seg with xmitCount := seg.xmitCount + 1, lost := false } with
      wire := s.wire ++ [⟨seg.sequenceNumber, seg.flags, seg.payload, false⟩] }

def mergeLoop (available : Nat) (seg : OutgoingSegment) :
    List OutgoingSegment → OutgoingSegment × List OutgoingSegment × Bool
  | [] => (seg, [], false)
  | nSeg :: rest =>
    if nSeg.payload.length = 0 then (seg, nSeg :: rest, false)
    else if seg.payload.length + nSeg.payload.length > available then (seg, nSeg :: rest, true)
    else mergeLoop available { seg with payload := seg.payload ++ nSeg.payload } rest

def assign (index : Nat) : Sender tree :=
  match s.writeList[index]? with
  | none => s
  | some seg => s.setSegment index
      { seg with sequenceNumber := s.space.sndNxt, flags := ⟨true, true, false⟩ }

/-- The first part of `maybeSendSegment`: a segment without a sequence number is merged with those
that follow it and gets one, unless Nagle's algorithm or TCP_CORK hold it back. -/
def prepare (index limit : Nat) (stop : Seqnum) (outstanding : Int) : Sender tree × Bool :=
  match s.writeList.drop index with
  | [] => (s, false)
  | seg :: rest =>
    if seg.isAssignedSequenceNumber then (s, true)
    else if seg.payload.length = 0 then (s.assign index, true)
    else
      let available := min (Seqnum.size s.space.sndNxt stop).toNat limit
      let (seg, left, nextTooBig) := mergeLoop available seg rest
      let s := { s with
        writeList := s.writeList.take index ++ seg :: left
        writeNext := if s.writeNext ≤ index then s.writeNext
          else s.writeNext - (rest.length - left.length) }
      if !nextTooBig && seg.payload.length < available then
        if outstanding > 0 && s.delayOption then (s, false)
        else if s.corkOption then
          if seg.payload.length < s.maxPayloadSize then
            ({ s with
              startCork := true
              corkTimer := if s.startCork then s.corkTimer else true }, false)
          else ({ s with startCork := false, corkTimer := false }.assign index, true)
        else (s.assign index, true)
      else (s.assign index, true)

def advance (segEnd : Seqnum) : Sender tree := { s with space := s.space.advance segEnd }

/-- The second part of `maybeSendSegment`: what fits into the window is sent. -/
def transmit (index limit : Nat) (stop : Seqnum) : Except Panic (Sender tree × Bool) :=
  match s.writeList[index]? with
  | none => .ok (s, false)
  | some seg =>
    if seg.payload.length = 0 then
      if index + 1 ≠ s.writeList.length then .error .finNotLast
      else
        let s := s.setSegment index { seg with flags := ⟨true, false, true⟩ }
        let s := { s with space := { s.space with finSent := true } }
        .ok ((s.sendSegment index).advance (Seqnum.add seg.sequenceNumber 1), true)
    else if seg.flags.fin then .error .finWithData
    else if !lessThan seg.sequenceNumber stop then .ok (s, false)
    else
      let available := (Seqnum.size seg.sequenceNumber stop).toNat
      if available = 0 then .ok (s, false)
      else if s.space.sndUna ≠ s.space.sndNxt ∧ available < seg.payload.length ∧
          available < s.maxPayloadSize then .ok (s, false)
      else
        let available := min available limit
        let available := if s.gsoNone then min available s.maxPayloadSize else available
        let segEnd := Seqnum.add seg.sequenceNumber (BitVec.ofNat 32 (min seg.payload.length available))
        .ok (((s.splitSeg index available).sendSegment index).advance segEnd, true)

def maybeSendSegment (index limit : Nat) (stop : Seqnum) (outstanding : Int) :
    Except Panic (Sender tree × Bool) :=
  match s.prepare index limit stop outstanding with
  | (s, true) => s.transmit index limit stop
  | (s, false) => .ok (s, false)

def isSACKED (seg : OutgoingSegment) : Bool := s.space.scoreboard.isSACKED seg.sackBlock

/-- The loop of `sendData`. It starts at `writeNext`, which stays at its segment. -/
def sendLoop (stop : Seqnum) : Nat → Congestion → Nat → Sender tree → Except Panic (Sender tree)
  | 0, _, _, s => .ok s
  | fuel + 1, congestion, limit, s =>
    match s.nextSeg? with
    | none => .ok s
    | some seg =>
      if congestion.room = 0 then .ok s
      else
        let limit := min limit (congestion.room * s.maxPayloadSize)
        if seg.isAssignedSequenceNumber && s.space.sackPermitted && s.isSACKED seg then
          sendLoop stop fuel congestion limit { s with writeNext := s.writeNext + 1 }
        else
          match s.maybeSendSegment s.writeNext limit stop congestion.outstanding with
          | .error panic => .error panic
          | .ok (s, false) => .ok s
          | .ok (s, true) =>
            let sent := (s.nextSeg?.map fun seg => seg.pCount s.maxPayloadSize).getD 0
            sendLoop stop fuel
              { congestion with outstanding := congestion.outstanding + sent } limit
              { s with writeNext := s.writeNext + 1 }

/-- Whether the probe timer may be armed in place of the retransmission timer; `calm` tells that
the sender is not in a recovery. -/
def shouldSchedulePTO (calm : Bool) : Bool :=
  s.rack && s.space.sackPermitted && calm && s.space.scoreboard.sacked == 0

def postXmit (shouldScheduleProbe calm : Bool) : Sender tree :=
  { s with
    zeroWindowProbing := s.zeroWindowProbing || s.nextSeg?.isSome && s.space.sndWnd == 0
    probeTimer := s.probeTimer ||
      s.space.sndUna != s.space.sndNxt && shouldScheduleProbe && s.shouldSchedulePTO calm }

def sendData (congestion : Congestion) (calm : Bool) : Except Panic (Sender tree) :=
  if s.egressL7Hold then .ok s
  else
    let limit := if s.gso then s.gsoLimit else s.maxPayloadSize
    -- Every turn leaves a segment behind or sends a packet.
    let turns := s.writeList.length + congestion.room + 1
    match s.sendLoop s.space.windowEnd turns congestion limit with
    | .error panic => .error panic
    | .ok s => .ok (s.postXmit true calm)

/-! Loss recovery. -/

def enterRecovery : Sender tree :=
  { s with
    fastRecovery :=
      { active := true
        first := s.space.sndUna
        last := s.space.sndNxt - 1
        highRxt := s.space.sndUna
        rescueRxt := s.space.sndUna }
    dupAckCount := 0
    tlpRxtOut := !s.space.sackPermitted && s.tlpRxtOut }

def leaveRecovery : Sender tree :=
  { s with fastRecovery := { s.fastRecovery with active := false }, dupAckCount := 0 }

def resendSegment : Sender tree :=
  match s.front? with
  | none => s
  | some seg =>
    let s := s.splitSeg 0 s.maxPayloadSize
    let last := seg.sequenceNumber + BitVec.ofNat 32 (min seg.payload.length s.maxPayloadSize) - 1
    { s with fastRecovery := { s.fastRecovery with highRxt := last, rescueRxt := last } }.sendSegment 0

/-- The loop of RACK's `detectLoss`: `elapsed` tells for which segments the reordering window has
elapsed. -/
def markLost (elapsed : Nat → Bool) : Nat → List OutgoingSegment → List OutgoingSegment × Nat
  | _, [] => ([], 0)
  | index, seg :: rest =>
    if seg.xmitCount = 0 then (seg :: rest, 0)
    else
      let (marked, numLost) := markLost elapsed (index + 1) rest
      if s.isSACKED seg then (seg :: marked, numLost)
      else if seg.lost && seg.xmitCount == 1 then (seg :: marked, numLost + 1)
      else if elapsed index then ({ seg with lost := true } :: marked, numLost + 1)
      else (seg :: marked, numLost)

def rackDetectLoss (elapsed : Nat → Bool) : Sender tree × Nat :=
  let (writeList, numLost) := s.markLost elapsed 0 s.writeList
  ({ s with writeList }, numLost)

def smss : Nat := s.space.scoreboard.smss.toNat

def rackLoop : Nat → Congestion → Nat → Sender tree → Except Panic (Sender tree)
  | 0, _, _, s => .ok s
  | fuel + 1, congestion, index, s =>
    match s.writeList[index]? with
    | none => .ok s
    | some seg =>
      if seg.xmitCount = 0 || index == s.writeNext then .ok s
      else if !seg.lost then rackLoop fuel congestion (index + 1) s
      else if s.isSACKED seg then
        rackLoop fuel congestion (index + 1) (s.setSegment index { seg with lost := false })
      else if congestion.room = 0 then .ok s
      else
        match s.maybeSendSegment index s.smss s.space.windowEnd congestion.outstanding with
        | .error panic => .error panic
        | .ok (s, false) => .ok s
        | .ok (s, true) =>
          let sent := (s.writeList[index]?.map fun seg => seg.pCount s.maxPayloadSize).getD 0
          rackLoop fuel { congestion with outstanding := congestion.outstanding + sent } (index + 1) s

def rackDoRecovery (fastRetransmit : Bool) (congestion : Congestion) (calm : Bool) : Except Panic (Sender tree) :=
  let s := if fastRetransmit then s.resendSegment else s
  let turns := s.writeList.length + congestion.room + 1
  match rackLoop turns congestion 0 s with
  | .error panic => .error panic
  | .ok s => .ok (s.postXmit true calm)

structure Scan where
  hint : Option Nat
  s3 : Option Nat
  s4 : Option (Nat × Seqnum)
deriving DecidableEq

def scanSegment (index : Nat) (segSeq : Seqnum) (scan : Scan) : Scan × Bool :=
  if s.space.scoreboard.isSACKED ⟨segSeq, segSeq + 1⟩ then (scan, false)
  else
    let candidate := lessThan s.fastRecovery.highRxt segSeq && lessThan segSeq s.space.scoreboard.maxSACKED
    if candidate && s.space.scoreboard.isLost segSeq then (scan, true)
    else
      let scan := if candidate && scan.s3.isNone then
        { scan with s3 := some index, hint := some (index + 1) } else scan
      if lessThan s.fastRecovery.rescueRxt (s.space.sndUna - 1) then
        match scan.s4 with
        | none => ({ scan with s4 := some (index, segSeq) }, false)
        | some (_, s4Seq) =>
          if lessThan s4Seq segSeq then ({ scan with s4 := some (index, segSeq) }, false)
          else (scan, false)
      else (scan, false)

/-- The first loop of `NextSeg`, from a position on: the segment it returns, or what it has found
when it ends. -/
def nextSegLoop : Nat → Nat → Scan → Sender tree → Sender tree × (Nat ⊕ Scan)
  | 0, _, scan, s => (s, .inr scan)
  | fuel + 1, index, scan, s =>
    match s.writeList[index]? with
    | none => (s, .inr scan)
    | some seg =>
      if !seg.isAssignedSequenceNumber || lessThanEq s.space.sndNxt seg.sequenceNumber then
        (s, .inr { scan with hint := none })
      else
        let s := s.splitSeg index s.smss
        match s.scanSegment index seg.sequenceNumber scan with
        | (_, true) => (s, .inl index)
        | (scan, false) => nextSegLoop fuel (index + 1) scan s

def firstUnsent? : Option Nat :=
  ((s.writeList.drop s.writeNext).findIdx? fun seg =>
    !(seg.isAssignedSequenceNumber && lessThan seg.sequenceNumber s.space.sndNxt)).map (s.writeNext + ·)

def scanFrom : Option Nat → Sender tree × (Nat ⊕ Scan)
  | none => (s, .inr ⟨none, none, none⟩)
  | some index =>
    -- Every turn passes a segment or cuts one that is longer than a byte.
    let turns := (s.writeList.map fun seg => seg.payload.length + 1).sum + 1
    nextSegLoop turns index ⟨none, none, none⟩ s

/-- `NextSeg`: the segment to send, the hint for the next call and whether it is a rescue
retransmission. -/
def nextSeg (hint : Option Nat) : Sender tree × Option Nat × Option Nat × Bool :=
  match s.scanFrom hint with
  | (s, .inl index) => (s, some index, some (index + 1), false)
  | (s, .inr scan) =>
    match s.firstUnsent? with
    | some index => (s, some index, none, false)
    | none =>
      match scan.s3 with
      | some index => (s, some index, scan.hint, false)
      | none => (s, scan.s4.map Prod.fst, none, true)

/-- The loop of `handleSACKRecovery`; every turn adds one to the outstanding packets. -/
def sackLoop (limit : Nat) (stop : Seqnum) :
    Nat → Int → Option Nat → Sender tree → Except Panic (Sender tree)
  | 0, _, _, s => .ok s
  | room + 1, outstanding, hint, s =>
    match s.nextSeg hint with
    | (s, none, _, _) => .ok s
    | (s, some index, hint, rescueRtx) =>
      match s.writeList[index]? with
      | none => .ok s
      | some seg =>
        if !seg.isAssignedSequenceNumber || lessThanEq s.space.sndNxt seg.sequenceNumber then
          match s.maybeSendSegment index limit stop outstanding with
          | .error panic => .error panic
          | .ok (s, false) => .ok s
          | .ok (s, true) =>
            sackLoop limit stop room (outstanding + 1) hint
              { s with writeNext := index + 1 }
        else
          let segEnd := Seqnum.add seg.sequenceNumber (BitVec.ofNat 32 seg.logicalLen)
          let fastRecovery := if rescueRtx then
            { s.fastRecovery with rescueRxt := s.fastRecovery.last }
          else { s.fastRecovery with highRxt := segEnd - 1 }
          sackLoop limit stop room (outstanding + 1) hint
            { s.sendSegment index with fastRecovery }

def sackDoRecovery (ackNumber : Seqnum) (fastRetransmit : Bool) (congestion : Congestion)
    (calm : Bool) : Except Panic (Sender tree) :=
  let s := if fastRetransmit then s.resendSegment else s
  if !inRange ackNumber s.space.sndUna (s.space.sndNxt + 1) then .ok s
  else
    let limit := min s.maxPayloadSize s.smss
    match sackLoop limit s.space.windowEnd congestion.room congestion.outstanding (some 0) s with
    | .error panic => .error panic
    | .ok s => .ok (s.postXmit true calm)

def renoDoRecovery (ack : Ack) (fastRetransmit : Bool) : Sender tree :=
  if !inRange ack.ackNumber s.space.sndUna (s.space.sndNxt + 1) then s
  else if ack.logicalLen ≠ 0 ∨
      s.space.sndWnd ≠ scaleWindow ack.window s.space.sndWndScale then s
  else if !fastRetransmit && ack.ackNumber == s.fastRecovery.first then s
  else
    { s with
      fastRecovery := { s.fastRecovery with first := ack.ackNumber }
      dupAckCount := 0 }.resendSegment

/-! Received segments. -/

def hasNewSACKInfo (ack : Ack) : Bool :=
  s.space.sackPermitted &&
    (ack.sackBlocks.foldl
      (fun (found : SendSpace tree × Bool) sb =>
        (found.1.insertSACK ack sb, found.2 || found.1.inFlight ack sb && !found.1.scoreboard.isSACKED sb))
      (s.space, false)).2

/-- `isDupAck`; `isNew` tells whether the SACK blocks told something new. -/
def isDupAck (ack : Ack) (isNew : Bool) : Bool :=
  !(s.space.sackPermitted && !isNew) &&
    s.space.sndUna != s.space.sndNxt &&
    ack.logicalLen == 0 &&
    !(ack.fin || ack.syn) &&
    ack.ackNumber == s.space.sndUna &&
    s.space.sndWnd == scaleWindow ack.window s.space.sndWndScale

def shouldEnterRecovery : Bool :=
  s.dupAckCount ≥ nDupAckThreshold || s.space.sackPermitted && !s.rack && s.space.scoreboard.isLost s.space.sndUna

/-- `detectLoss` of the sender; `reord` tells whether RACK has seen reordering. -/
def detectLoss (ack : Ack) (isNew reord : Bool) : Sender tree × Bool :=
  if s.space.sackPermitted && s.rack && reord then (s, false)
  else if !s.isDupAck ack isNew then ({ s with dupAckCount := 0 }, false)
  else
    let s := { s with dupAckCount := s.dupAckCount + 1 }
    if !s.shouldEnterRecovery then
      ({ s with fastRecovery := { s.fastRecovery with highRxt := s.space.sndUna - 1 } }, false)
    else if !lessThan s.fastRecovery.last (ack.ackNumber - 1) then
      ({ s with dupAckCount := 0 }, false)
    else (s.enterRecovery, true)

def checkDSACK (ack : Ack) : Bool :=
  match ack.sackBlocks with
  | [] => false
  | sb :: rest =>
    if lessThan sb.stop sb.start then false
    else if lessThan sb.start ack.ackNumber then true
    else
      match rest with
      | [] => false
      | sb1 :: _ =>
        !lessThan sb1.stop sb1.start && (lessThanEq sb.stop sb1.stop && lessThanEq sb1.start sb.start)

def detectTLPRecovery (ack : Ack) (isNew : Bool) : Sender tree :=
  if !(s.space.sackPermitted && s.tlpRxtOut) then s
  else
    let complete := s.isDupAck ack isNew && ack.ackNumber == s.tlpHighRxt &&
      !ack.sackBlocks.any fun sb => lessThan s.tlpHighRxt sb.stop
    let s := { s with tlpRxtOut := !complete }
    if s.tlpRxtOut && lessThanEq s.tlpHighRxt ack.ackNumber then
      let s := { s with tlpRxtOut := false }
      if checkDSACK ack then s else s.enterRecovery.leaveRecovery
    else s

/-- The loop that removes acknowledged data from the front of the write list, with the position of
`writeNext`. -/
def removeAcked : Nat → List OutgoingSegment → Nat → Except Panic (List OutgoingSegment × Nat)
  | 0, writeList, writeNext => .ok (writeList, writeNext)
  | _ + 1, [], _ => .error .emptyWriteList
  | ackLeft + 1, seg :: rest, writeNext =>
    let datalen := seg.logicalLen
    if datalen > ackLeft + 1 then
      .ok ({ seg with
        payload := seg.payload.drop (ackLeft + 1)
        sequenceNumber := seg.sequenceNumber + BitVec.ofNat 32 (ackLeft + 1) } :: rest,
        writeNext)
    else removeAcked (ackLeft + 1 - datalen) rest (writeNext - 1)

/-- What the clock, RACK and the congestion control answer while a segment is handled. -/
structure AckInput where
  reord : Bool
  calm : Bool
  elapsed : Nat → Bool
  recovery : Congestion
  data : Congestion

def handleNewAck (ackNumber : Seqnum) (calm : Bool) : Except Panic (Sender tree) :=
  let acked := (Seqnum.size s.space.sndUna ackNumber).toNat
  match removeAcked acked s.writeList s.writeNext with
  | .error panic => .error panic
  | .ok (writeList, writeNext) =>
    .ok { s with
      dupAckCount := 0
      writeList
      writeNext
      probeTimer := s.shouldSchedulePTO calm && ackNumber != s.space.sndNxt
      space := s.space.acknowledge ackNumber }

/-- Whether a recovery ends or begins; the second result tells that one begins. -/
def followRecovery (ack : Ack) (isNew reord : Bool) : Sender tree × Bool :=
  if s.fastRecovery.active then
    if s.space.acksNewData ack.ackNumber && lessThan s.fastRecovery.last ack.ackNumber then
      (s.leaveRecovery, false)
    else (s, false)
  else s.detectLoss ack isNew reord

/-- The first part of `handleRcvdSegment`: SACK blocks, the detection of losses and the window. -/
def noteSegment (ack : Ack) (input : AckInput) : Sender tree × Bool :=
  let isNew := s.hasNewSACKInfo ack
  let (s, fastRetransmit) :=
    { s with space := s.space.insertSACKs ack }.followRecovery ack isNew input.reord
  let s := if s.rack then s.detectTLPRecovery ack isNew else s
  ({ s with space := { s.space with
      sndWnd := scaleWindow ack.window s.space.sndWndScale } }, fastRetransmit)

/-- RACK looks for lost segments; the second result tells that a recovery has begun. -/
def rackStart (fastRetransmit : Bool) (elapsed : Nat → Bool) : Sender tree × Bool :=
  let (s, numLost) := s.rackDetectLoss elapsed
  if numLost > 0 && !s.fastRecovery.active then (s.enterRecovery, true) else (s, fastRetransmit)

def rackRecover (fastRetransmit : Bool) (input : AckInput) : Except Panic (Sender tree) :=
  if s.space.sackPermitted && s.rack then
    let (s, fastRetransmit) := s.rackStart fastRetransmit input.elapsed
    if s.fastRecovery.active then s.rackDoRecovery fastRetransmit input.recovery input.calm
    else .ok s
  else .ok s

/-- The last part: what RACK or the other algorithms retransmit, and new data. -/
def recoverAndSend (ack : Ack) (fastRetransmit : Bool) (input : AckInput) : Except Panic (Sender tree) :=
  match s.rackRecover fastRetransmit input with
  | .error panic => .error panic
  | .ok s =>
    if s.fastRecovery.active && !s.rack then
      if s.space.sackPermitted then
        s.sackDoRecovery ack.ackNumber fastRetransmit input.recovery input.calm
      else (s.renoDoRecovery ack fastRetransmit).sendData input.data input.calm
    else s.sendData input.data input.calm

def handleRcvdSegment (ack : Ack) (input : AckInput) : Except Panic (Sender tree) :=
  let (s, fastRetransmit) := s.noteSegment ack input
  let s := if s.zeroWindowProbing && s.space.sndWnd != 0 &&
      (ack.ackNumber == s.space.sndUna || s.space.acksNewData ack.ackNumber) then
    { s with zeroWindowProbing := false, unackZeroWindowProbes := 0 } else s
  if s.zeroWindowProbing && s.unackZeroWindowProbes > 0 && ack.ackNumber == s.space.sndUna then
    .ok { s with unackZeroWindowProbes := s.unackZeroWindowProbes - 1 }
  else if s.space.acksNewData ack.ackNumber then
    match s.handleNewAck ack.ackNumber input.calm with
    | .error panic => .error panic
    | .ok s => s.recoverAndSend ack fastRetransmit input
  else s.recoverAndSend ack fastRetransmit input

/-! Timers and the size of segments. -/

def sendZeroWindowProbe : Sender tree :=
  if s.egressL7Hold then s
  else
    { s with
      unackZeroWindowProbes := s.unackZeroWindowProbes + 1
      wire := s.wire ++ [⟨s.space.sndUna - 1, ⟨true, false, false⟩, [0], true⟩] }

/-- `retransmitTimerExpired`; `timedOut` tells that the connection is given up. -/
def retransmitTimerExpired (timedOut : Bool) (congestion : Congestion) (calm : Bool) :
    Except Panic (Sender tree) :=
  if s.writeList.isEmpty then .ok s
  else
    let s := { s with tlpRxtOut := false }
    if timedOut then .ok s
    else
      let s := { s with
        fastRecovery := { s.fastRecovery with last := s.space.sndNxt - 1 } }
      let s := if s.fastRecovery.active then s.leaveRecovery else s
      let s := { s with
        space := { s.space with scoreboard := s.space.scoreboard.reset }
        writeNext := 0 }
      if s.zeroWindowProbing then .ok s.sendZeroWindowProbe
      else if s.nextSeg?.any fun seg => seg.xmitCount > s.maxRetries then .ok s
      else s.sendData congestion calm

def reorderTimerExpired (elapsed : Nat → Bool) (congestion : Congestion) (calm : Bool) :
    Except Panic (Sender tree) :=
  let (s, numLost) := s.rackDetectLoss elapsed
  if numLost = 0 then .ok s
  else if s.fastRecovery.active then s.rackDoRecovery false congestion calm
  else s.enterRecovery.rackDoRecovery true congestion calm

def highestSeqXmit? : Option Nat :=
  match (s.writeList.takeWhile fun seg => seg.xmitCount ≠ 0).length with
  | 0 => none
  | count + 1 => some count

def probeNew (congestion : Congestion) : Except Panic (Sender tree × Bool) :=
  match s.nextSeg? with
  | none => .ok (s, false)
  | some seg =>
    if seg.xmitCount = 0 ∧ congestion.room ≠ 0 then
      match s.maybeSendSegment s.writeNext s.smss s.space.windowEnd congestion.outstanding with
      | .error panic => .error panic
      | .ok (s, false) => .ok (s, false)
      | .ok (s, true) => .ok ({ s with writeNext := s.writeNext + 1 }, true)
    else .ok (s, false)

def probeLast (congestion : Congestion) : Except Panic (Sender tree) :=
  if s.tlpRxtOut then .ok s
  else
    match s.highestSeqXmit? with
    | none => .ok s
    | some index =>
      match s.maybeSendSegment index s.smss s.space.windowEnd congestion.outstanding with
      | .error panic => .error panic
      | .ok (s, false) => .ok s
      | .ok (s, true) => .ok { s with tlpRxtOut := true, tlpHighRxt := s.space.sndNxt }

def probeTimerExpired (congestion : Congestion) : Except Panic (Sender tree) :=
  match { s with probeTimer := false }.probeNew congestion with
  | .error panic => .error panic
  | .ok (s, true) => .ok (s.postXmit false false)
  | .ok (s, false) =>
    match s.probeLast congestion with
    | .error panic => .error panic
    | .ok s => .ok (s.postXmit false false)

def corkTimerExpired (congestion : Congestion) (calm : Bool) : Except Panic (Sender tree) :=
  let s := { s with corkTimer := false }
  if s.nextSeg?.isNone then .ok s else (s.assign s.writeNext).sendData congestion calm

/-- The first segment before `writeNext` that exceeds the maximum payload size, else
`writeNext`. -/
def rewindTo (m : Nat) : Nat :=
  ((s.writeList.take s.writeNext).findIdx? fun seg => seg.payload.length > m).getD s.writeNext

/-- `updateMaxPayloadSize`; `room` is what the MTU leaves for the payload. -/
def updateMaxPayloadSize (room : Int) (count : Nat) (congestion : Congestion) (calm : Bool) :
    Except Panic (Sender tree) :=
  if room ≥ s.maxPayloadSize then .ok s
  else
    let m := max 1 room.toNat
    let s := { s with maxPayloadSize := m }
    if count = 0 then .ok s
    else
      let s := { s with space := { s.space with
        scoreboard := { s.space.scoreboard with smss := BitVec.ofNat 16 m } } }
      { s with writeNext := s.rewindTo m }.sendData congestion calm

/-! What the endpoint does with the sender. -/

def pushBack (payload : List Byte) : Sender tree :=
  { s with
    writeList := s.writeList ++ [newOutgoingSegment payload]
    -- No segment is the position after the last one, before and after.
    writeNext := if s.writeNext = s.writeList.length then s.writeNext + 1 else s.writeNext }

/-- The endpoint's `sendData`, after the segment at the end of the list was queued. -/
def sendDataFrom (congestion : Congestion) (calm : Bool) : Except Panic (Sender tree) :=
  { s with
    writeNext := if s.nextSeg?.isNone then s.writeList.length - 1 else s.writeNext }.sendData congestion calm

def purgeWriteQueue : Sender tree :=
  { s with writeList := [], writeNext := 0, space := { s.space with sndNxt := s.space.sndUna } }

end Sender

end BVisor.Tcp
