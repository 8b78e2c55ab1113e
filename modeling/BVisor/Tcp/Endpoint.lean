import BVisor.Tcp.Sender

/-! The endpoint around a sender: what the application writes, the classification of the first bytes
of an outbound stream and the events that reach the sender. -/

namespace BVisor.Tcp

open Data Seqnum

inductive L7Verdict where
  | noGate | denied | needMore | allowed
deriving DecidableEq

def egressL7SniffLimit : Nat := 32 * 1024

def egressL7MaxRounds : Nat := 128

/-- A call of `CheckL7`: the bytes it was given, those that were queued then and its answer. -/
structure Check where
  bytes : List Byte
  queued : List Byte
  verdict : L7Verdict
deriving DecidableEq

/-- `written` holds every byte that the application has queued, `checks` every call of `CheckL7`;
`terminated` tells that the connection was reset and its queue purged. -/
structure Endpoint (tree : OrderedTree SACKBlock) where
  snd : Sender tree
  sndClosed : Bool
  terminated : Bool
  egressL7Required : Bool
  egressL7Prefix : List Byte
  egressL7Rounds : Nat
  written : List Byte
  checks : List Check

/-- The sizes that segmentation offload may have; those of links are far below the bound. -/
def maxGsoLimit : Nat := 2 ^ 30

/-- How a connection is set up: what the handshake and the route have settled. A segment has room for
data, because the MSS is at least as large as all options and eight bytes more. -/
structure Setup where
  iss : Seqnum
  window : BitVec 16
  windowScale : Fin (maxWndScale + 1)
  sndWndScale : Fin (maxWndScale + 1)
  sackPermitted : Bool
  rack : Bool
  maxRetries : Nat
  maxPayloadSize : Nat
  gso : Bool
  gsoNone : Bool
  gsoLimit : Nat
  requireEgressL7 : Bool
  hasPayload : 0 < maxPayloadSize
  smallPayload : maxPayloadSize < 2 ^ 16
  hasGsoLimit : 0 < gsoLimit
  smallGsoLimit : gsoLimit < maxGsoLimit

namespace Endpoint

variable {tree : OrderedTree SACKBlock}

/-- `initSender`, at the end of the handshake. -/
def initial (setup : Setup) : Endpoint tree :=
  { snd :=
      { space := .initial setup.iss setup.window setup.windowScale setup.sndWndScale
          setup.sackPermitted (BitVec.ofNat 16 setup.maxPayloadSize)
        writeList := []
        writeNext := 0
        maxPayloadSize := setup.maxPayloadSize
        maxRetries := setup.maxRetries
        gso := setup.gso
        gsoNone := setup.gsoNone
        gsoLimit := setup.gsoLimit
        rack := setup.rack
        delayOption := false
        corkOption := false
        startCork := false
        corkTimer := false
        probeTimer := false
        fastRecovery :=
          { active := false
            first := 0
            last := setup.iss
            highRxt := setup.iss
            rescueRxt := setup.iss }
        dupAckCount := 0
        tlpRxtOut := false
        tlpHighRxt := 0
        zeroWindowProbing := false
        unackZeroWindowProbes := 0
        egressL7Hold := false
        wire := [] }
    sndClosed := false
    terminated := false
    egressL7Required := setup.requireEgressL7
    egressL7Prefix := []
    egressL7Rounds := 0
    written := []
    checks := [] }

variable (e : Endpoint tree)

/-- Resets the connection: the write queue is purged and the timers are cleaned up. -/
def resetConnection : Endpoint tree :=
  { e with
    snd := { e.snd.purgeWriteQueue with corkTimer := false, probeTimer := false }
    sndClosed := true
    terminated := true }

def clearEgressL7 : Endpoint tree :=
  { e with
    snd := { e.snd with egressL7Hold := false }
    egressL7Required := false
    egressL7Prefix := []
    egressL7Rounds := 0 }

def denyEgressL7 : Endpoint tree := e.clearEgressL7.resetConnection

def appendEgressL7Prefix (payload : List Byte) : Endpoint tree :=
  { e with egressL7Prefix := e.egressL7Prefix ++
      payload.take (egressL7SniffLimit - e.egressL7Prefix.length) }

/-- `classifyEgressL7`, with the gate's answer; the second result tells whether the connection was
denied. -/
def classifyEgressL7 (final : Bool) (verdict : L7Verdict) : Endpoint tree × Bool :=
  if !e.egressL7Required then (e, false)
  else if e.egressL7Rounds ≥ egressL7MaxRounds then (e.denyEgressL7, true)
  else if verdict = .noGate then (e.denyEgressL7, true)
  else
    let e := { e with
      egressL7Rounds := e.egressL7Rounds + 1
      checks := e.checks ++ [Check.mk e.egressL7Prefix e.written verdict] }
    if verdict = .denied then (e.denyEgressL7, true)
    else if verdict = .needMore then
      if final || e.egressL7Prefix.length = egressL7SniffLimit then (e.denyEgressL7, true)
      else ({ e with snd := { e.snd with egressL7Hold := true } }, false)
    else
      let e := e.clearEgressL7
      ({ e with snd := { e.snd with writeNext := 0 } }, false)

def withSender : Except Panic (Sender tree) → Except Panic (Endpoint tree)
  | .error panic => .error panic
  | .ok snd => .ok { e with snd }

def pushed (payload : List Byte) : Endpoint tree :=
  { e with snd := e.snd.pushBack payload, written := e.written ++ payload }

def classifyWrite (payload : List Byte) (verdict : L7Verdict) : Endpoint tree × Bool :=
  if e.egressL7Required then (e.appendEgressL7Prefix payload).classifyEgressL7 false verdict
  else (e, false)

/-- `Write`, once there is room in the send buffer. -/
def write (payload : List Byte) (verdict : L7Verdict) (congestion : Congestion) (calm : Bool) :
    Except Panic (Endpoint tree) :=
  match (e.pushed payload).classifyWrite payload verdict with
  | (e, denied) =>
    if denied || e.snd.egressL7Hold then .ok e
    else e.withSender (e.snd.sendDataFrom congestion calm)

def shutdown (verdict : L7Verdict) (congestion : Congestion) (calm : Bool) : Except Panic (Endpoint tree) :=
  let (e, denied) := e.classifyEgressL7 true verdict
  if denied || e.sndClosed then .ok e
  else
    let e := { e with snd := e.snd.pushBack [], sndClosed := true }
    e.withSender (e.snd.sendDataFrom congestion calm)

def flush (congestion : Congestion) (calm : Bool) : Except Panic (Endpoint tree) :=
  if e.snd.nextSeg?.isNone then .ok e else e.withSender (e.snd.sendData congestion calm)

def setDelayOption (v : Bool) (congestion : Congestion) (calm : Bool) : Except Panic (Endpoint tree) :=
  let e := { e with snd := { e.snd with delayOption := v } }
  if v then .ok e else e.flush congestion calm

def setCorkOption (v : Bool) (congestion : Congestion) (calm : Bool) : Except Panic (Endpoint tree) :=
  let e := { e with snd := { e.snd with corkOption := v } }
  if v then .ok e
  else { e with snd := { e.snd with corkTimer := false } }.flush congestion calm

/-- Saving and restoring a connection. A held stream is terminated; otherwise the scoreboard and the
timers start anew and the route settles the segmentation offload and the size of segments. -/
def restore (gsoNone : Bool) (gsoLimit : Nat) (room : Int) : Except Panic (Endpoint tree) :=
  if e.snd.egressL7Hold then .ok e.denyEgressL7
  else
    let snd := { e.snd with
      space := { e.snd.space with scoreboard := e.snd.space.scoreboard.reset }
      gsoNone
      gsoLimit
      probeTimer := false
      corkTimer := e.snd.corkOption }
    e.withSender (snd.updateMaxPayloadSize room 0 ⟨0, 0⟩ false)

/-- The events of a connection, with what the gate, the clock and the congestion control answer. -/
inductive Event where
  | write (payload : List Byte) (verdict : L7Verdict) (congestion : Congestion) (calm : Bool)
  | shutdown (verdict : L7Verdict) (congestion : Congestion) (calm : Bool)
  | receive (ack : Ack) (input : Sender.AckInput)
  | retransmitTimer (timedOut : Bool) (congestion : Congestion) (calm : Bool)
  | reorderTimer (elapsed : Nat → Bool) (congestion : Congestion) (calm : Bool)
  | probeTimer (congestion : Congestion)
  | corkTimer (congestion : Congestion) (calm : Bool)
  | packetTooBig (room : Int) (congestion : Congestion) (calm : Bool)
  | setDelayOption (v : Bool) (congestion : Congestion) (calm : Bool)
  | setCorkOption (v : Bool) (congestion : Congestion) (calm : Bool)
  | reset
  | restore (gsoNone : Bool) (gsoLimit : Nat) (room : Int)

/-- Whether an event can happen. After a reset only the route can still report its MTU. -/
def Enabled : Event → Prop
  | .write payload _ _ _ =>
    e.terminated = false ∧ e.sndClosed = false ∧ payload ≠ []
  | .probeTimer _ => e.terminated = false ∧ e.snd.probeTimer = true
  | .corkTimer _ _ => e.terminated = false ∧ e.snd.corkTimer = true
  | .packetTooBig _ _ _ => True
  | .restore _ gsoLimit _ => e.terminated = false ∧ 0 < gsoLimit ∧ gsoLimit < maxGsoLimit
  | _ => e.terminated = false

instance (event : Event) : Decidable (e.Enabled event) := by
  cases event <;> unfold Enabled <;> infer_instance

def handle : Event → Except Panic (Endpoint tree)
  | .write payload verdict congestion calm => e.write payload verdict congestion calm
  | .shutdown verdict congestion calm => e.shutdown verdict congestion calm
  | .receive ack input => e.withSender (e.snd.handleRcvdSegment ack input)
  | .retransmitTimer timedOut congestion calm =>
    e.withSender (e.snd.retransmitTimerExpired timedOut congestion calm)
  | .reorderTimer elapsed congestion calm =>
    e.withSender (e.snd.reorderTimerExpired elapsed congestion calm)
  | .probeTimer congestion => e.withSender (e.snd.probeTimerExpired congestion)
  | .corkTimer congestion calm => e.withSender (e.snd.corkTimerExpired congestion calm)
  | .packetTooBig room congestion calm =>
    e.withSender (e.snd.updateMaxPayloadSize room 1 congestion calm)
  | .setDelayOption v congestion calm => e.setDelayOption v congestion calm
  | .setCorkOption v congestion calm => e.setCorkOption v congestion calm
  | .reset => .ok e.resetConnection
  | .restore gsoNone gsoLimit room => e.restore gsoNone gsoLimit room

/-- A step of the connection; there is none after a panic. -/
def step (event : Event) : Option (Endpoint tree) :=
  if e.Enabled event then (e.handle event).toOption else none

end Endpoint

end BVisor.Tcp
