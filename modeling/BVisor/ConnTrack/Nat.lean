import BVisor.ConnTrack.Table

/-! Network address translation: its configuration on a connection, and the rewriting of packets. -/

namespace BVisor.ConnTrack

variable {A τ θ : Type} [DecidableEq A]

inductive NATType where
  | unknown | snat | dnat
deriving DecidableEq

structure PortOrIdentRange where
  start : UInt16
  size : UInt32

def maxUint16 : Nat := 2 ^ 16 - 1

/-! The part of a connection that one type of translation manipulates: the source of the reply tuple
for the destination of packets, its destination for their source. Every type but `dnat` is handled
as the second. -/

def Conn.manip (cn : Conn A τ) : NATType → ManipType
  | .dnat => cn.destinationManip
  | _ => cn.sourceManip

def Conn.setManip (cn : Conn A τ) (natType : NATType) (manip : ManipType) : Conn A τ :=
  match natType with
  | .dnat => { cn with destinationManip := manip }
  | _ => { cn with sourceManip := manip }

def Conn.setAddress (cn : Conn A τ) (natType : NATType) (address : A) : Conn A τ :=
  match natType with
  | .dnat => { cn with reply := { cn.reply with srcAddr := address } }
  | _ => { cn with reply := { cn.reply with dstAddr := address } }

def Conn.portOrIdent (cn : Conn A τ) : NATType → UInt16
  | .dnat => cn.reply.srcPortOrEchoRequestIdent
  | _ => cn.reply.dstPortOrEchoReplyIdent

def Conn.setPortOrIdent (cn : Conn A τ) (natType : NATType) (portOrIdent : UInt16) : Conn A τ :=
  match natType with
  | .dnat => { cn with reply := { cn.reply with srcPortOrEchoRequestIdent := portOrIdent } }
  | _ => { cn with reply := { cn.reply with dstPortOrEchoReplyIdent := portOrIdent } }

/-- One round of `ConfigureNAT`: the attempts from number `i` on. -/
def Conn.tryPorts (env : Env A τ θ) (ct : Table A τ) (range : PortOrIdentRange) (natType : NATType)
    (randOffset : UInt32) : Nat → UInt32 → Conn A τ → Conn A τ × Bool
  | 0, _, cn => (cn, false)
  | attempts + 1, i, cn =>
    let newPortOrIdentU32 := range.start.toUInt32 + (randOffset + i) % range.size
    if newPortOrIdentU32.toNat > maxUint16 then
      cn.tryPorts env ct range natType randOffset attempts (i + 1)
    else
      let cn := cn.setPortOrIdent natType newPortOrIdentU32.toUInt16
      if (ct.connForTID env cn.reply).isNone then (cn, true)
      else cn.tryPorts env ct range natType randOffset attempts (i + 1)

def maxAttemptsForInitialRound : Nat := 128
def minAttemptsToContinue : Nat := 16

/-- The rounds of `ConfigureNAT`, each with half of the attempts of the one before; `rand` gives
the random numbers. -/
def Conn.searchPort (env : Env A τ θ) (ct : Table A τ) (range : PortOrIdentRange)
    (natType : NATType) (rand : Nat → UInt32) (round maxAttempts : Nat) (cn : Conn A τ) :
    Conn A τ × Bool :=
  let tried := cn.tryPorts env ct range natType (rand round) maxAttempts 0
  if tried.2 then tried
  else if maxAttempts = range.size.toNat then tried
  else if maxAttempts < minAttemptsToContinue then tried
  else tried.1.searchPort env ct range natType rand (round + 1) (maxAttempts / 2)
termination_by maxAttempts
decreasing_by
  have positive : 16 ≤ maxAttempts := Nat.not_lt.mp ‹_›
  omega

/-- The look-ups are made in the table as it was before the call. The source has rewritten the reply
tuple of `cn` by then, which is seen only through a connection that is in the table, that is, one
already finalized. -/
def Conn.configureNAT (env : Env A τ θ) (ct : Table A τ) (i : Nat) (cn : Conn A τ)
    (range : PortOrIdentRange) (natAddress : A) (natType : NATType)
    (changePort changeAddress : Bool) (rand : Nat → UInt32) : Conn A τ × Bool :=
  let lastPortOrIdentU32 := range.start.toUInt32 + range.size - 1
  if lastPortOrIdentU32.toNat > maxUint16 then (cn, false)
  else if cn.manip natType ≠ .notPerformed then (cn, true)
  else
    let cn := cn.setManip natType .performed
    let cn := if changeAddress then cn.setAddress natType natAddress else cn
    if !changePort then (cn, true)
    else
      let portOrIdent := cn.portOrIdent natType
      -- the port stays if it is in the range and the reply tuple is no other connection's
      let unique : Bool :=
        match ct.connForTID env cn.reply with
        | none => true
        | some other => other.conn = i
      if range.start ≤ portOrIdent ∧ portOrIdent ≤ lastPortOrIdentU32.toUInt16 ∧ unique then
        (cn, true)
      else
        cn.searchPort env ct range natType rand 0 (min maxAttemptsForInitialRound range.size.toNat)

def targetPortRangeForTCPAndUDP (originalSrcPort : UInt16) : PortOrIdentRange :=
  if originalSrcPort < 512 then ⟨1, 511⟩
  else if originalSrcPort < 1024 then ⟨1, 1023⟩
  else ⟨1024, 0xffff - 1023⟩

def Packet.sourcePort (pkt : Packet A θ) : UInt16 :=
  match pkt.transport with
  | .tcp srcPort _ _ => srcPort
  | .udp srcPort _ => srcPort
  | _ => 0

def Conn.configureNoopNAT (env : Env A τ θ) (ct : Table A τ) (i : Nat) (cn : Conn A τ)
    (noAddress : A) (pkt : Packet A θ) (natType : NATType) (rand : Nat → UInt32) :
    Conn A τ × Bool :=
  if cn.manip natType ≠ .notPerformed then (cn, true)
  else if natType = .dnat then (cn.setManip natType .performedNoop, true)
  else
    let port := pkt.sourcePort
    let range := if port ≠ 0 then targetPortRangeForTCPAndUDP port else ⟨0, 0xffff + 1⟩
    cn.configureNAT env ct i range noAddress natType true false rand

/-! The rewriting of packets. -/

/-- The transport header after `UpdateHeaders`, for a packet that is no ICMP error. -/
def Transport.updatePortOrIdent (transport : Transport A θ) (updateSRCFields : Bool)
    (newPortOrIdent : UInt16) : Transport A θ :=
  match transport with
  | .tcp srcPort dstPort segment =>
    if updateSRCFields then .tcp newPortOrIdent dstPort segment
    else .tcp srcPort newPortOrIdent segment
  | .udp srcPort dstPort =>
    if updateSRCFields then .udp newPortOrIdent dstPort else .udp srcPort newPortOrIdent
  | .echo version request ident =>
    -- a request has its ident as the source, a reply as the destination
    if request = updateSRCFields then .echo version request newPortOrIdent
    else .echo version request ident
  | unchanged => unchanged

def Packet.setAddress (pkt : Packet A θ) (updateSRCFields : Bool) (newAddr : A) : Packet A θ :=
  if updateSRCFields then { pkt with srcAddr := newAddr } else { pkt with dstAddr := newAddr }

def Embedded.updateHeaders (embedded : Embedded A) (updateSRCFields : Bool)
    (newPort : UInt16) (newAddr : A) : Embedded A :=
  if updateSRCFields then { embedded with srcPort := newPort, srcAddr := newAddr }
  else { embedded with dstPort := newPort, dstAddr := newAddr }

def Packet.rewrite (pkt : Packet A θ) (dnat : Bool) (newPort : UInt16) (newAddr : A) : Packet A θ :=
  match pkt.transport with
  | .icmpError version (some embedded) =>
    -- the packet inside goes the other way
    { pkt with
      transport := .icmpError version (some (embedded.updateHeaders dnat newPort newAddr)) }
      |>.setAddress (!dnat) newAddr
  | transport =>
    { pkt with transport := transport.updatePortOrIdent (!dnat) newPort }
      |>.setAddress (!dnat) newAddr

def Packet.hasHeaders (pkt : Packet A θ) : Bool :=
  match pkt.transport with
  | .tcp _ _ _ | .udp _ _ | .echo _ _ _ | .icmpError _ (some _) => true
  | _ => false

def Packet.natDone (pkt : Packet A θ) (dnat : Bool) : Bool :=
  if dnat then pkt.dnatDone else pkt.snatDone

def Packet.setNatDone (pkt : Packet A θ) (dnat : Bool) : Packet A θ :=
  if dnat then { pkt with dnatDone := true } else { pkt with snatDone := true }

/-- `handlePacket` for a packet of a connection, and whether it can skip the NAT table; `none` for
a panic. -/
def handlePacket (cn : Conn A τ) (reply : Bool) (pkt : Packet A θ) (natType : NATType) :
    Option (Packet A θ × Bool) :=
  if natType = .unknown then some (pkt, false)
  else if !pkt.hasHeaders then some (pkt, false)
  else
    let dnat : Bool := natType = .dnat
    if pkt.natDone dnat then none
    else
      let tid := if reply then cn.original else cn.reply
      let manip := if reply != dnat then cn.destinationManip else cn.sourceManip
      match manip with
      | .notPerformed => some (pkt, false)
      | .performedNoop => some (pkt.setNatDone dnat, true)
      | .performed =>
        let newPort :=
          if dnat then tid.srcPortOrEchoRequestIdent else tid.dstPortOrEchoReplyIdent
        let newAddr := if dnat then tid.srcAddr else tid.dstAddr
        some ((pkt.rewrite dnat newPort newAddr).setNatDone dnat, true)

/-! The calls on a table. -/

inductive Event (A θ : Type) where
  | getConnAndUpdate (pkt : Packet A θ)
  | configureNAT (i : Nat) (range : PortOrIdentRange) (natAddress : A) (natType : NATType)
      (changePort changeAddress : Bool) (rand : Nat → UInt32)
  | configureNoopNAT (i : Nat) (noAddress : A) (pkt : Packet A θ) (natType : NATType) (rand : Nat → UInt32)
  | finalize (i : Nat)
  | reapUnused (start prevInterval : Nat)
  | advance (duration : Nat)

/-- One call; `none` for a connection that does not exist. -/
def step (env : Env A τ θ) (ct : Table A τ) : Event A θ → Option (Table A τ)
  | .getConnAndUpdate pkt => some (ct.getConnAndUpdate env pkt).1
  | .configureNAT i range natAddress natType changePort changeAddress rand =>
    match ct.conns i with
    | none => none
    | some cn =>
      some (ct.setConn i
        (cn.configureNAT env ct i range natAddress natType changePort changeAddress rand).1)
  | .configureNoopNAT i noAddress pkt natType rand =>
    match ct.conns i with
    | none => none
    | some cn =>
      some (ct.setConn i (cn.configureNoopNAT env ct i noAddress pkt natType rand).1)
  | .finalize i =>
    match ct.conns i with
    | none => none
    | some cn => some (ct.finalize env i cn).1
  | .reapUnused start prevInterval => some (ct.reapUnused env start prevInterval).1
  | .advance duration => some { ct with now := ct.now + duration }

end BVisor.ConnTrack
