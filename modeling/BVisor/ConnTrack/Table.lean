import Mathlib

/-! The connection tracking table: buckets of tuples, and the connections they belong to. Checksums
of packets are only checked, never kept. -/

namespace BVisor.ConnTrack

/-! Tuples. -/

inductive NetProto where
  | ipv4 | ipv6
deriving DecidableEq

inductive TransProto where
  | tcp | udp | icmpv4 | icmpv6
deriving DecidableEq

structure TupleID (A : Type) where
  srcAddr : A
  srcPortOrEchoRequestIdent : UInt16
  dstAddr : A
  dstPortOrEchoReplyIdent : UInt16
  transProto : TransProto
  netProto : NetProto
deriving DecidableEq

variable {A τ θ : Type}

def TupleID.reply (ti : TupleID A) : TupleID A where
  srcAddr := ti.dstAddr
  srcPortOrEchoRequestIdent := ti.dstPortOrEchoReplyIdent
  dstAddr := ti.srcAddr
  dstPortOrEchoReplyIdent := ti.srcPortOrEchoRequestIdent
  transProto := ti.transProto
  netProto := ti.netProto

/-! Packets. -/

structure Embedded (A : Type) where
  srcAddr : A
  dstAddr : A
  srcPort : UInt16
  dstPort : UInt16
  /-- TCP, or else UDP. -/
  isTCP : Bool
  /-- The IPv4 header has options. -/
  options : Bool

/-- The transport header of a packet, as far as connection tracking reads it. -/
inductive Transport (A θ : Type) where
  | tcp (srcPort dstPort : UInt16) (segment : θ)
  | udp (srcPort dstPort : UInt16)
  | echo (version : NetProto) (request : Bool) (ident : UInt16)
  /-- An ICMP error; the packet it is about cannot be read if there is none. -/
  | icmpError (version : NetProto) (embedded : Option (Embedded A))
  /-- Another protocol or ICMP type, or a header that is too short. -/
  | other

structure TupleRef where
  conn : Nat
  reply : Bool
deriving DecidableEq

structure Packet (A θ : Type) where
  netProto : NetProto
  srcAddr : A
  dstAddr : A
  transport : Transport A θ
  /-- `TCPValid` or `UDPValid`. -/
  valid : Bool
  tuple : Option TupleRef
  dnatDone : Bool
  snatDone : Bool

def icmpProto : NetProto → TransProto
  | .ipv4 => .icmpv4
  | .ipv6 => .icmpv6

/-- `getTupleID`, with whether a new connection is allowed. -/
def getTupleID (pkt : Packet A θ) : Option (TupleID A × Bool) :=
  match pkt.transport with
  | .tcp srcPort dstPort _ =>
    some (⟨pkt.srcAddr, srcPort, pkt.dstAddr, dstPort, .tcp, pkt.netProto⟩, true)
  | .udp srcPort dstPort =>
    some (⟨pkt.srcAddr, srcPort, pkt.dstAddr, dstPort, .udp, pkt.netProto⟩, true)
  | .echo version request ident =>
    -- the ident is the source port of a request and the destination port of a reply
    if request then
      some (⟨pkt.srcAddr, ident, pkt.dstAddr, 0, icmpProto version, pkt.netProto⟩, true)
    else
      some (⟨pkt.srcAddr, 0, pkt.dstAddr, ident, icmpProto version, pkt.netProto⟩, false)
  | .icmpError version (some inner) =>
    if version = .ipv4 ∧ inner.options then none
    else
      some (⟨inner.dstAddr, inner.dstPort, inner.srcAddr, inner.srcPort,
        if inner.isTCP then .tcp else .udp, version⟩, false)
  | .icmpError _ none => none
  | .other => none

/-! Connections. -/

inductive ManipType where
  | notPerformed | performed | performedNoop
deriving DecidableEq

inductive FinalizeResult where
  | success | conflict
deriving DecidableEq

/-- The TCP state of a connection: any type with the operations that are used. -/
structure TCB (τ θ : Type) where
  zero : τ
  isEmpty : τ → Bool
  init : τ → θ → τ
  updateStateReply : τ → θ → τ
  updateStateOriginal : τ → θ → τ
  /-- The state is `ResultAlive`. -/
  alive : τ → Bool

structure Conn (A τ : Type) where
  original : TupleID A
  reply : TupleID A
  /-- Set by the first call of `finalize`. -/
  finalizeResult : Option FinalizeResult
  sourceManip : ManipType
  destinationManip : ManipType
  tcb : τ
  lastUsed : Nat
  replySeen : Bool

def Conn.tupleID (cn : Conn A τ) (reply : Bool) : TupleID A :=
  if reply then cn.reply else cn.original

structure Env (A τ θ : Type) where
  tcb : TCB τ θ
  tupleHash : TupleID A → Nat

def numBuckets : Nat := 2 ^ 14

/-- Durations are in nanoseconds. -/
def establishedTimeout : Nat := 5 * 24 * 3600 * 10 ^ 9
def unestablishedTimeout : Nat := 120 * 10 ^ 9

def Env.bucket (env : Env A τ θ) (id : TupleID A) : Nat := env.tupleHash id % numBuckets

def Conn.timedOut (env : Env A τ θ) (cn : Conn A τ) (now : Nat) : Bool :=
  if env.tcb.alive cn.tcb then now - cn.lastUsed > establishedTimeout
  else now - cn.lastUsed > unestablishedTimeout

def Conn.update (env : Env A τ θ) (cn : Conn A τ) (pkt : Packet A θ) (reply : Bool) (now : Nat) : Conn A τ :=
  let cn := { cn with lastUsed := now, replySeen := cn.replySeen || reply }
  match pkt.transport with
  | .tcp _ _ segment =>
    { cn with
      tcb :=
        if env.tcb.isEmpty cn.tcb then env.tcb.init cn.tcb segment
        else if reply then env.tcb.updateStateReply cn.tcb segment
        else env.tcb.updateStateOriginal cn.tcb segment }
  | _ => cn

/-! The table. -/

/-- Connections are numbered in the order of their creation. Packets may keep a connection after
it left the table. -/
structure Table (A τ : Type) where
  conns : Nat → Option (Conn A τ)
  created : Nat
  buckets : Nat → List TupleRef
  now : Nat

def Table.new : Table A τ where
  conns := fun _ => none
  created := 0
  buckets := fun _ => []
  now := 0

def Table.setConn (ct : Table A τ) (i : Nat) (cn : Conn A τ) : Table A τ :=
  { ct with conns := Function.update ct.conns i (some cn) }

def Table.pushFront (ct : Table A τ) (b : Nat) (ref : TupleRef) : Table A τ :=
  { ct with buckets := Function.update ct.buckets b (ref :: ct.buckets b) }

/-- `tuples.Remove` on the list of one bucket. A tuple that is in no list has no links, and nothing
happens. A tuple of another bucket's list is taken out of it as well, unless it is the first one
there: the head of that list still points to it, and what came after it is lost. -/
def Table.remove (ct : Table A τ) (b : Nat) (ref : TupleRef) : Table A τ :=
  { ct with
    buckets := fun other =>
      if other ≠ b ∧ (ct.buckets other).head? = some ref then [ref]
      else (ct.buckets other).erase ref }

variable [DecidableEq A]

def Table.isConnFor (env : Env A τ θ) (ct : Table A τ) (tid : TupleID A) (ref : TupleRef) : Bool :=
  match ct.conns ref.conn with
  | some cn => tid = cn.tupleID ref.reply && !cn.timedOut env ct.now
  | none => false

def Table.connForTID (env : Env A τ θ) (ct : Table A τ) (tid : TupleID A) : Option TupleRef :=
  (ct.buckets (env.bucket tid)).find? (ct.isConnFor env tid)

/-- A new connection for the first packet of it, in the table with its original tuple only. -/
def Table.create (env : Env A τ θ) (ct : Table A τ) (tid : TupleID A) : Table A τ :=
  let cn : Conn A τ :=
    { original := tid
      reply := tid.reply
      finalizeResult := none
      sourceManip := .notPerformed
      destinationManip := .notPerformed
      tcb := env.tcb.zero
      lastUsed := ct.now
      replySeen := false }
  { ct with
    conns := Function.update ct.conns ct.created (some cn)
    created := ct.created + 1
    buckets := Function.update ct.buckets (env.bucket tid) (⟨ct.created, false⟩ :: ct.buckets (env.bucket tid)) }

def Table.updateConn (env : Env A τ θ) (ct : Table A τ) (ref : TupleRef) (pkt : Packet A θ) : Table A τ :=
  match ct.conns ref.conn with
  | some cn => ct.setConn ref.conn (cn.update env pkt ref.reply ct.now)
  | none => ct

def Table.getConnAndUpdate (env : Env A τ θ) (ct : Table A τ) (pkt : Packet A θ) : Table A τ × Option TupleRef :=
  match getTupleID pkt with
  | none => (ct, none)
  | some (tid, allowNewConn) =>
    if !pkt.valid then (ct, none)
    else
      match ct.connForTID env tid with
      | some ref => (ct.updateConn env ref pkt, some ref)
      | none =>
        if !allowNewConn then (ct, none)
        else
          let ref : TupleRef := ⟨ct.created, false⟩
          ((ct.create env tid).updateConn env ref pkt, some ref)

def Table.finalizeTuples (env : Env A τ θ) (ct : Table A τ) (i : Nat) (cn : Conn A τ) :
    Table A τ × FinalizeResult :=
  match ct.connForTID env cn.reply with
  | none => (ct.pushFront (env.bucket cn.reply) ⟨i, true⟩, .success)
  | some ref =>
    -- the tuple can be the original one of this connection, if both are equal
    if ref.conn = i then (ct, .success)
    else (ct.remove (env.bucket cn.original) ⟨i, false⟩, .conflict)

def Table.finalize (env : Env A τ θ) (ct : Table A τ) (i : Nat) (cn : Conn A τ) : Table A τ × Bool :=
  match cn.finalizeResult with
  | some result => (ct, result = .success)
  | none =>
    let answer := ct.finalizeTuples env i cn
    (answer.1.setConn i { cn with finalizeResult := some answer.2 }, answer.2 = .success)

/-! Reaping. -/

/-- `reapTupleLocked`, with whether the connection has timed out. -/
def Table.reapTupleLocked (env : Env A τ θ) (ct : Table A τ) (ref : TupleRef) (bktID : Nat) : Table A τ × Bool :=
  match ct.conns ref.conn with
  | none => (ct, false)
  | some cn =>
    if !cn.timedOut env ct.now then (ct, false)
    else
      let otherTupleBktID := env.bucket (cn.tupleID (!ref.reply))
      let replyTupleInserted := cn.finalizeResult = some .success
      -- both tuples are reaped together, from the bucket that comes first
      if bktID > otherTupleBktID ∧ replyTupleInserted then (ct, true)
      else if replyTupleInserted then
        ((ct.remove bktID ref).remove otherTupleBktID ⟨ref.conn, !ref.reply⟩, true)
      else (ct.remove bktID ref, true)

structure Examined where
  checked : Nat
  expired : Nat

/-- The loop over one bucket from a tuple on: `remaining` is what is left of the list. The next
tuple is read before a tuple is reaped. If it is reaped together with it, it is still looked at,
but it has no successor then. -/
def Table.reapBucket (env : Env A τ θ) (ct : Table A τ) (idx : Nat) (remaining : List TupleRef)
    (seen : Examined) : Table A τ × Examined :=
  match remaining with
  | [] => (ct, seen)
  | ref :: rest =>
    let reaped := ct.reapTupleLocked env ref idx
    let seen : Examined := ⟨seen.checked + 1, seen.expired + reaped.2.toNat⟩
    match rest with
    | [] => (reaped.1, seen)
    | next :: later =>
      if next ∈ reaped.1.buckets idx then
        reaped.1.reapBucket env idx ((next :: later).filter (· ∈ reaped.1.buckets idx)) seen
      else
        let again := reaped.1.reapTupleLocked env next idx
        (again.1, ⟨seen.checked + 1, seen.expired + again.2.toNat⟩)
termination_by remaining.length
decreasing_by exact Nat.lt_succ_of_le (List.length_filter_le _ (next :: later))

def fractionPerReaping : Nat := 128
def maxExpiredPct : Nat := 50
def minInterval : Nat := 10 * 10 ^ 6
def maxInterval : Nat := 60 * 10 ^ 9 / fractionPerReaping

def Table.reapBuckets (env : Env A τ θ) (start : Nat) : Nat → Table A τ → Table A τ × Examined
  | 0, ct => (ct, ⟨0, 0⟩)
  | count + 1, ct =>
    let before := ct.reapBuckets env start count
    let idx := (count + start) % numBuckets
    before.1.reapBucket env idx (before.1.buckets idx) before.2

/-- `reapUnused`: the table, the next bucket and the interval to the next call. -/
def Table.reapUnused (env : Env A τ θ) (ct : Table A τ) (start prevInterval : Nat) : Table A τ × Nat × Nat :=
  let count := numBuckets / fractionPerReaping
  let reaped := ct.reapBuckets env start count
  let idx := (count - 1 + start) % numBuckets + 1
  let expiredPct := if reaped.2.checked ≠ 0 then reaped.2.expired * 100 / reaped.2.checked else 0
  if expiredPct > maxExpiredPct then (reaped.1, idx, minInterval)
  else if prevInterval + minInterval ≤ maxInterval then (reaped.1, idx, prevInterval + minInterval)
  else (reaped.1, idx, maxInterval)

end BVisor.ConnTrack
