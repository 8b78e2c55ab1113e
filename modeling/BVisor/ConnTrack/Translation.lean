import BVisor.ConnTrack.Runs

/-! Packets of a connection are translated to the reverse of the tuple of the other direction. -/

namespace BVisor.ConnTrack

open Data Packet

variable {A τ θ : Type} {reply : Bool}

def Packet.isPlain (pkt : Packet A θ) : Bool :=
  match pkt.transport with
  | .tcp _ _ _ | .udp _ _ | .echo _ _ _ => true
  | _ => false

/-- A packet can carry the reverse of the tuple: an echo has one identifier only, which is the
source of a request and the destination of a reply. -/
def Packet.Fits (pkt : Packet A θ) (tid : TupleID A) : Prop :=
  match pkt.transport with
  | .echo _ true _ => tid.srcPortOrEchoRequestIdent = 0
  | .echo _ false _ => tid.dstPortOrEchoReplyIdent = 0
  | _ => True

def TupleID.target (tid : TupleID A) (dnat : Bool) : UInt16 × A :=
  if dnat then (tid.srcPortOrEchoRequestIdent, tid.srcAddr)
  else (tid.dstPortOrEchoReplyIdent, tid.dstAddr)

section Rewriting

variable {pkt : Packet A θ} {tid : TupleID A} {allow : Bool}

@[elab_as_elim]
theorem Packet.isPlain_cases {motive : Packet A θ → Prop} (plain : pkt.isPlain = true)
    (tcp : ∀ (pkt : Packet A θ) srcPort dstPort segment,
      motive { pkt with transport := .tcp srcPort dstPort segment })
    (udp : ∀ (pkt : Packet A θ) srcPort dstPort, motive { pkt with transport := .udp srcPort dstPort })
    (echo : ∀ (pkt : Packet A θ) version request ident,
      motive { pkt with transport := .echo version request ident }) : motive pkt := by
  obtain ⟨netProto, srcAddr, dstAddr, transport, valid, tuple, dnatDone, snatDone⟩ := pkt
  let pkt : Packet A θ := ⟨netProto, srcAddr, dstAddr, transport, valid, tuple, dnatDone, snatDone⟩
  cases transport with
  | tcp srcPort dstPort segment => exact tcp pkt srcPort dstPort segment
  | udp srcPort dstPort => exact udp pkt srcPort dstPort
  | echo version request ident => exact echo pkt version request ident
  | icmpError version embedded => cases plain
  | other => cases plain

def TupleID.setSide (tid : TupleID A) (dnat : Bool) (port : UInt16) (addr : A) : TupleID A :=
  if dnat then { tid with dstPortOrEchoReplyIdent := port, dstAddr := addr }
  else { tid with srcPortOrEchoRequestIdent := port, srcAddr := addr }

/-- The port that a packet has after it was given a new one on one side. -/
def Packet.portAfter (pkt : Packet A θ) (dnat : Bool) (newPort : UInt16) : UInt16 :=
  match pkt.transport with
  | .echo _ request _ => if request = dnat then 0 else newPort
  | _ => newPort

theorem Packet.rewrite_spec (plain : pkt.isPlain = true)
    (known : getTupleID pkt = some (tid, allow)) (dnat : Bool) :
    (∀ (newPort : UInt16) (newAddr : A), getTupleID (pkt.rewrite dnat newPort newAddr) =
      some (tid.setSide dnat (pkt.portAfter dnat newPort) newAddr, allow)) ∧
    pkt.rewrite dnat (tid.reply.target dnat).1 (tid.reply.target dnat).2 = pkt := by
  revert known
  refine isPlain_cases plain (fun _ _ _ _ known => ?_) (fun _ _ _ known => ?_)
    fun _ _ request _ known => ?_
  · cases dnat <;> cases known <;> exact ⟨fun _ _ => rfl, rfl⟩
  · cases dnat <;> cases known <;> exact ⟨fun _ _ => rfl, rfl⟩
  · cases request <;> cases dnat <;> cases known <;> exact ⟨fun _ _ => rfl, rfl⟩

theorem getTupleID_setNatDone (dnat : Bool) : getTupleID (pkt.setNatDone dnat) = getTupleID pkt := by
  cases dnat <;> rfl

namespace Packet

section

variable (plain : pkt.isPlain = true)
include plain

theorem isPlain_rewrite (dnat : Bool) (newPort : UInt16)
    (newAddr : A) : ((pkt.rewrite dnat newPort newAddr).setNatDone dnat).isPlain = true := by
  refine isPlain_cases plain (fun _ _ _ _ => ?_) (fun _ _ _ => ?_) fun _ _ request _ => ?_
  · cases dnat <;> rfl
  · cases dnat <;> rfl
  · cases request <;> cases dnat <;> rfl

theorem portAfter_rewrite (newPort : UInt16) (newAddr : A) (port : UInt16) :
    ((pkt.rewrite true newPort newAddr).setNatDone true).portAfter false port =
      pkt.portAfter false port := by
  refine isPlain_cases plain (fun _ _ _ _ => rfl) (fun _ _ _ => rfl) fun _ _ request _ => ?_
  cases request <;> rfl

theorem snatDone_rewrite (newPort : UInt16) (newAddr : A) :
    ((pkt.rewrite true newPort newAddr).setNatDone true).snatDone = pkt.snatDone := by
  exact isPlain_cases plain (fun _ _ _ _ => rfl) (fun _ _ _ => rfl) fun _ _ _ _ => rfl

theorem fits_iff :
    pkt.Fits tid ↔
      pkt.portAfter true tid.srcPortOrEchoRequestIdent = tid.srcPortOrEchoRequestIdent ∧
        pkt.portAfter false tid.dstPortOrEchoReplyIdent = tid.dstPortOrEchoReplyIdent := by
  refine isPlain_cases plain (fun _ _ _ _ => ?_) (fun _ _ _ => ?_) fun _ _ request _ => ?_
  · simp [Fits, portAfter]
  · simp [Fits, portAfter]
  · cases request <;> simp [Fits, portAfter, eq_comm]

end

end Packet

end Rewriting

section Handling

variable {cn : Conn A τ} {pkt : Packet A θ} {tid : TupleID A} {allow : Bool}

def natTypeOf (dnat : Bool) : NATType := if dnat then .dnat else .snat

theorem handlePacket_rewrites (reply dnat : Bool) (plain : pkt.isPlain = true)
    (notDone : pkt.natDone dnat = false)
    (configured : (if reply != dnat then cn.destinationManip else cn.sourceManip) ≠ .notPerformed)
    (noop : (if reply != dnat then cn.destinationManip else cn.sourceManip) = .performedNoop →
      pkt.rewrite dnat ((cn.tupleID (!reply)).target dnat).1 ((cn.tupleID (!reply)).target dnat).2 =
        pkt) :
    handlePacket cn reply pkt (natTypeOf dnat) =
      some ((pkt.rewrite dnat ((cn.tupleID (!reply)).target dnat).1
        ((cn.tupleID (!reply)).target dnat).2).setNatDone dnat, true) := by
  have headers : pkt.hasHeaders = true := by
    cases transport : pkt.transport <;> simp_all [isPlain, hasHeaders]
  have other : (if reply then cn.original else cn.reply) = cn.tupleID (!reply) := by
    cases reply <;> rfl
  have known : natTypeOf dnat ≠ .unknown := by cases dnat <;> decide
  have isDnat : decide (natTypeOf dnat = .dnat) = dnat := by cases dnat <;> rfl
  simp only [handlePacket, if_neg known, headers, Bool.not_true, Bool.false_eq_true, if_false,
    isDnat, notDone, other]
  cases manip : (if reply != dnat then cn.destinationManip else cn.sourceManip) with
  | notPerformed => exact absurd manip configured
  | performedNoop =>
    rw [noop manip]
  | performed =>
    cases dnat <;> rfl

/-- Where translation is a no-op, the packet already has the address and port of the target. -/
theorem Conn.Faithful.target (faithful : cn.Faithful) {dnat : Bool}
    (noop : (if reply != dnat then cn.destinationManip else cn.sourceManip) = .performedNoop) :
    (cn.tupleID (!reply)).target dnat = (cn.tupleID reply).reply.target dnat := by
  have fixed : (if reply != dnat then cn.destinationManip else cn.sourceManip) ≠ .performed :=
    fun performed => nomatch noop.symm.trans performed
  cases reply with
  | false =>
    cases dnat with
    | false => exact Prod.ext (faithful.destination fixed).2 (faithful.destination fixed).1
    | true => exact Prod.ext (faithful.source fixed).2 (faithful.source fixed).1
  | true =>
    cases dnat with
    | false => exact Prod.ext (faithful.source fixed).2.symm (faithful.source fixed).1.symm
    | true => exact Prod.ext (faithful.destination fixed).2.symm (faithful.destination fixed).1.symm

theorem Conn.Faithful.proto (faithful : cn.Faithful) (reply : Bool) :
    (cn.tupleID (!reply)).transProto = (cn.tupleID reply).transProto ∧
      (cn.tupleID (!reply)).netProto = (cn.tupleID reply).netProto := by
  obtain ⟨trans, net⟩ := faithful.protocols
  cases reply with
  | false => exact ⟨trans, net⟩
  | true => exact ⟨trans.symm, net.symm⟩

theorem TupleID.translated_iff {out : TupleID A} {first second : UInt16}
    (trans : out.transProto = tid.transProto) (net : out.netProto = tid.netProto) :
    (tid.setSide true first out.srcAddr).setSide false second out.dstAddr = out.reply ↔
      first = out.srcPortOrEchoRequestIdent ∧ second = out.dstPortOrEchoReplyIdent := by
  constructor
  · intro same
    exact ⟨congrArg TupleID.dstPortOrEchoReplyIdent same, congrArg TupleID.srcPortOrEchoRequestIdent same⟩
  · intro ports
    obtain ⟨rfl, rfl⟩ := ports
    simp [TupleID.setSide, TupleID.reply, trans, net]

theorem Conn.Faithful.translates (faithful : cn.Faithful)
    (source : cn.sourceManip ≠ .notPerformed) (destination : cn.destinationManip ≠ .notPerformed)
    (plain : pkt.isPlain = true) (dnatPending : pkt.dnatDone = false)
    (snatPending : pkt.snatDone = false) (known : getTupleID pkt = some (cn.tupleID reply, allow)) :
    ∃ middle translated, handlePacket cn reply pkt .dnat = some (middle, true) ∧
      handlePacket cn reply middle .snat = some (translated, true) ∧
      ∃ id, getTupleID translated = some (id, allow) ∧
        (id = (cn.tupleID (!reply)).reply ↔ pkt.Fits (cn.tupleID (!reply))) := by
  have configured : ∀ dnat,
      (if reply != dnat then cn.destinationManip else cn.sourceManip) ≠ .notPerformed := by
    intro dnat
    split
    · exact destination
    · exact source
  let out := cn.tupleID (!reply)
  let middle := (pkt.rewrite true (out.target true).1 (out.target true).2).setNatDone true
  have middlePlain : middle.isPlain = true := isPlain_rewrite plain _ _ _
  have middleKnown : getTupleID middle = some
      ((cn.tupleID reply).setSide true (pkt.portAfter true (out.target true).1) out.srcAddr, allow) :=
    (getTupleID_setNatDone true).trans ((rewrite_spec plain known true).1 _ _)
  refine ⟨middle, (middle.rewrite false (out.target false).1 (out.target false).2).setNatDone false, ?_, ?_, ?_⟩
  · refine handlePacket_rewrites reply true plain dnatPending (configured true) fun noop => ?_
    rw [faithful.target noop]
    exact (rewrite_spec plain known true).2
  · refine handlePacket_rewrites reply false middlePlain
      ((snatDone_rewrite plain _ _).trans snatPending) (configured false) fun noop => ?_
    rw [faithful.target noop]
    exact (rewrite_spec middlePlain middleKnown false).2
  · obtain ⟨trans, net⟩ := faithful.proto reply
    refine ⟨_, (getTupleID_setNatDone false).trans ((rewrite_spec middlePlain middleKnown false).1 _ _), ?_⟩
    rw [portAfter_rewrite plain]
    exact (TupleID.translated_iff trans net).trans (fits_iff plain).symm

end Handling

section Lookup

variable [DecidableEq A] {env : Env A τ θ} {ct : Table A τ} {i : Nat} {cn cn' : Conn A τ}
  {pkt : Packet A θ}

section

variable (consistent : Consistent env ct)
include consistent

theorem Consistent.getConnAndUpdate_known (found : ct.conns i = some cn)
    (tracked : (ct.getConnAndUpdate env pkt).2 = some ⟨i, reply⟩) :
    ∃ allow tcb seen, getTupleID pkt = some (cn.tupleID reply, allow) ∧
      (ct.getConnAndUpdate env pkt).1.conns i =
        some { cn with tcb := tcb, lastUsed := ct.now, replySeen := seen } := by
  cases identified : getTupleID pkt with
  | none => simp [Table.getConnAndUpdate, identified] at tracked
  | some answer =>
    obtain ⟨tid, allowNewConn⟩ := answer
    simp only [Table.getConnAndUpdate, identified] at tracked ⊢
    split at tracked
    · cases tracked
    next valid =>
    cases lookup : ct.connForTID env tid with
    | none =>
      simp only [lookup] at tracked
      split at tracked
      · cases tracked
      · -- a new connection has a number of its own
        cases tracked
        exact absurd (consistent.exists_below found) (Nat.lt_irrefl _)
    | some ref =>
      simp only [lookup, Option.some.injEq] at tracked
      subst tracked
      obtain ⟨-, cn', known, identity, -⟩ := Table.connForTID_some lookup
      cases found.symm.trans known
      obtain ⟨tcb, seen, updated⟩ := @Conn.update_keeps A τ θ env cn pkt reply ct.now
      refine ⟨allowNewConn, tcb, seen, by rw [identity], ?_⟩
      simp only [valid, Bool.false_eq_true, if_false, Table.updateConn, found, updated]
      exact Function.update_self ..

section

variable (found : ct.conns i = some cn) (success : cn.finalizeResult = some .success)
  (lives : cn.timedOut env ct.now = false)
include found success lives

theorem Consistent.reply_held : ∃ side, ct.Holds ⟨i, side⟩ ∧ cn.tupleID side = cn.reply := by
  have original := consistent.live i cn found success lives
  by_cases same : cn.original = cn.reply
  · exact ⟨false, original, same⟩
  · exact ⟨true, (consistent.paired i cn found success same).mp original, rfl⟩

theorem Consistent.reply_found : ∃ side, ct.connForTID env cn.reply = some ⟨i, side⟩ ∧
      (side = true ∨ cn.original = cn.reply) := by
  obtain ⟨side, held, identity⟩ := consistent.reply_held found success lives
  cases lookup : ct.connForTID env cn.reply with
  | none => exact absurd identity (consistent.connForTID_none lookup held found lives)
  | some ref =>
    obtain ⟨member, cn', known, identity', lives'⟩ := Table.connForTID_some lookup
    have same : i = ref.conn := consistent.unique ⟨i, side⟩ cn held found lives ref cn'
      ⟨_, member⟩ known lives' (identity.trans identity'.symm)
    obtain ⟨conn, reply⟩ := ref
    subst same
    cases found.symm.trans known
    cases reply with
    | true => exact ⟨true, rfl, .inl rfl⟩
    | false => exact ⟨false, rfl, .inr identity'⟩

end

theorem Consistent.reply_distinct {j : Nat} (differ : i ≠ j)
    (found : ct.conns i = some cn) (success : cn.finalizeResult = some .success)
    (lives : cn.timedOut env ct.now = false) (found' : ct.conns j = some cn')
    (success' : cn'.finalizeResult = some .success) (lives' : cn'.timedOut env ct.now = false) :
    cn.reply ≠ cn'.reply := by
  intro same
  obtain ⟨side, held, identity⟩ := consistent.reply_held found success lives
  obtain ⟨side', held', identity'⟩ := consistent.reply_held found' success' lives'
  exact differ (consistent.unique ⟨i, side⟩ cn held found lives ⟨j, side'⟩ cn' held' found' lives'
    (identity.trans (same.trans identity'.symm)))

end

/-- In every guarded run, a packet of a finalized connection with both translations configured
becomes the reverse of the tuple of the other direction exactly if it can carry it; the answer is
looked up as the reply of the connection, and no other connection has the same answers. -/
theorem guarded_run_translates {events : List (Event A θ)} (ran : run (step env) Table.new events = some ct)
    (guarded : Along (step env) (Guarded env) Table.new events) (found : ct.conns i = some cn)
    (success : cn.finalizeResult = some .success) (source : cn.sourceManip ≠ .notPerformed)
    (destination : cn.destinationManip ≠ .notPerformed) :
    (∀ (pkt : Packet A θ) reply, pkt.isPlain = true → pkt.dnatDone = false →
      pkt.snatDone = false → (ct.getConnAndUpdate env pkt).2 = some ⟨i, reply⟩ →
      ∃ cn' middle translated, (ct.getConnAndUpdate env pkt).1.conns i = some cn' ∧
        handlePacket cn' reply pkt .dnat = some (middle, true) ∧
        handlePacket cn' reply middle .snat = some (translated, true) ∧
        ((∃ allow, getTupleID translated = some ((cn.tupleID (!reply)).reply, allow)) ↔
          pkt.Fits (cn.tupleID (!reply)))) ∧
    (cn.timedOut env ct.now = false →
      (∀ (answer : Packet A θ) allow, answer.valid = true →
        getTupleID answer = some (cn.reply.reply.reply, allow) →
        ∃ side, (ct.getConnAndUpdate env answer).2 = some ⟨i, side⟩ ∧
          (side = true ∨ cn.original = cn.reply)) ∧
      ∀ j cn', i ≠ j → ct.conns j = some cn' → cn'.finalizeResult = some .success →
        cn'.timedOut env ct.now = false → cn.reply.reply ≠ cn'.reply.reply) := by
  have consistent := (Consistent.new.run ran guarded).1
  refine ⟨?_, fun lives => ⟨?_, ?_⟩⟩
  · intro pkt reply plain dnatPending snatPending tracked
    obtain ⟨allow, tcb, seen, known, after⟩ := consistent.getConnAndUpdate_known found tracked
    have faithful := @Conn.Faithful.update A τ cn tcb ct.now seen (consistent.faithful i cn found)
    obtain ⟨middle, translated, first, second, id, identified, exactly⟩ :=
      faithful.translates source destination plain dnatPending snatPending known
    refine ⟨_, middle, translated, after, first, second, ?_⟩
    have exactly : id = (cn.tupleID (!reply)).reply ↔ pkt.Fits (cn.tupleID (!reply)) := exactly
    rw [identified]
    simpa using exactly
  · intro answer allow valid identified
    obtain ⟨side, lookup, isReply⟩ := consistent.reply_found found success lives
    refine ⟨side, ?_, isReply⟩
    have lookup : ct.connForTID env cn.reply.reply.reply = some ⟨i, side⟩ := lookup
    simp [Table.getConnAndUpdate, identified, valid, lookup]
  · intro j cn' differ found' success' lives' same
    exact consistent.reply_distinct differ found success lives found' success' lives'
      (congrArg TupleID.reply same)

end Lookup

/-! A datagram that is redirected to another address, and an echo that is redirected to a port. -/

def redirectedQuery : List (Event Nat Unit) :=
  [.getConnAndUpdate query, redirect, .configureNoopNAT 0 0 query .snat (fun _ => 0), .finalize 0]

theorem redirectedQuery_guarded : Along (step datagramEnv) (Guarded datagramEnv) Table.new redirectedQuery := by
  refine ⟨trivial, fun next stepped => ?_⟩
  cases stepped
  refine ⟨fun cn found success => ?_, fun next stepped => ?_⟩
  · cases Option.some.inj found
    cases success
  · cases stepped
    refine ⟨fun cn found success => ?_, fun next stepped => ?_⟩
    · cases Option.some.inj found
      cases success
    · cases stepped
      refine ⟨fun cn found _ => ?_, fun _ _ => trivial⟩
      cases Option.some.inj found
      decide

theorem redirectedQuery_translates :
    ∃ ct, run (step datagramEnv) Table.new redirectedQuery = some ct ∧
      ∃ cn middle translated, (ct.getConnAndUpdate datagramEnv query).1.conns 0 = some cn ∧
        handlePacket cn false query .dnat = some (middle, true) ∧
        handlePacket cn false middle .snat = some (translated, true) ∧
        ∃ allow, getTupleID translated = some (cn.reply.reply, allow) := by
  have translates := (guarded_run_translates rfl redirectedQuery_guarded rfl rfl
    (by decide) (by decide)).1 query false rfl rfl rfl rfl
  obtain ⟨cn, middle, translated, found, first, second, exactly⟩ := translates
  cases found
  exact ⟨_, rfl, _, middle, translated, rfl, first, second, exactly.mpr trivial⟩

def ping : Packet Nat Unit := { query with transport := .echo .ipv4 true 7 }

def redirectToPort : Event Nat Unit := .configureNAT 0 ⟨80, 1⟩ 3 .dnat true true fun _ => 0

theorem Conn.searchPort_first {A τ θ : Type} [DecidableEq A] {env : Env A τ θ} {ct : Table A τ}
    {cn : Conn A τ} {range : PortOrIdentRange} {natType : NATType} {rand : Nat → UInt32}
    {round maxAttempts : Nat} (found : (cn.tryPorts env ct range natType (rand round) maxAttempts 0).2 = true) :
    cn.searchPort env ct range natType rand round maxAttempts =
      cn.tryPorts env ct range natType (rand round) maxAttempts 0 := by
  rw [Conn.searchPort]
  exact if_pos found

def pinged : Table Nat Unit := (Table.new.getConnAndUpdate datagramEnv ping).1

def redirectedPing : Conn Nat Unit where
  original := ⟨1, 7, 2, 0, .icmpv4, .ipv4⟩
  reply := ⟨3, 80, 1, 7, .icmpv4, .ipv4⟩
  finalizeResult := none
  sourceManip := .notPerformed
  destinationManip := .performed
  tcb := ()
  lastUsed := 0
  replySeen := false

theorem pinged_redirected : step datagramEnv pinged redirectToPort = some (pinged.setConn 0 redirectedPing) := by
  let manipulated : Conn Nat Unit := { redirectedPing with reply := ⟨3, 0, 1, 7, .icmpv4, .ipv4⟩ }
  have searched : manipulated.searchPort datagramEnv pinged ⟨80, 1⟩ .dnat (fun _ => 0) 0
      (min maxAttemptsForInitialRound 1) = (redirectedPing, true) :=
    (Conn.searchPort_first rfl).trans rfl
  exact congrArg (fun answer => some (pinged.setConn 0 answer.1)) searched

/-- The request keeps no place for the port: it is translated to a tuple whose answers belong to
no connection. -/
theorem redirected_ping_unanswered :
    ∃ ct cn middle translated, run (step datagramEnv) Table.new
        [.getConnAndUpdate ping, redirectToPort, .configureNoopNAT 0 0 ping .snat (fun _ => 0),
          .finalize 0] = some ct ∧ ct.conns 0 = some cn ∧
      cn.finalizeResult = some .success ∧ cn.sourceManip ≠ .notPerformed ∧
      cn.destinationManip ≠ .notPerformed ∧
      (ct.getConnAndUpdate datagramEnv ping).2 = some ⟨0, false⟩ ∧
      handlePacket cn false ping .dnat = some (middle, true) ∧
      handlePacket cn false middle .snat = some (translated, true) ∧
      ∃ id allow, getTupleID translated = some (id, allow) ∧ id ≠ cn.reply.reply ∧
        ct.connForTID datagramEnv id.reply = none := by
  have first : run (step datagramEnv) Table.new
      [.getConnAndUpdate ping, redirectToPort, .configureNoopNAT 0 0 ping .snat (fun _ => 0), .finalize 0] =
      run (step datagramEnv) (pinged.setConn 0 redirectedPing)
        [.configureNoopNAT 0 0 ping .snat (fun _ => 0), .finalize 0] := run_cons pinged_redirected
  exact ⟨_, _, _, _, first.trans rfl, rfl, rfl, by decide, by decide, rfl, rfl, rfl, _, _, rfl,
    by decide, rfl⟩

end BVisor.ConnTrack
