import BVisor.ConnTrack.Reaping

/-! The calls on a connection tracking table one after the other. -/

namespace BVisor.ConnTrack

open Data Function Table

variable {A τ θ : Type} [DecidableEq A] {env : Env A τ θ} {ct : Table A τ} {i : Nat}
  {cn cn' : Conn A τ}

/-! Packets. -/

section

omit [DecidableEq A]

theorem Conn.update_keeps (cn : Conn A τ) (pkt : Packet A θ) (reply : Bool) (now : Nat) :
    ∃ tcb seen, cn.update env pkt reply now =
      { cn with tcb := tcb, lastUsed := now, replySeen := seen } := by
  simp only [Conn.update]
  split
  · exact ⟨_, _, rfl⟩
  · exact ⟨_, _, rfl⟩

theorem Conn.Faithful.update {tcb : τ} {used : Nat} {seen : Bool} (faithful : cn.Faithful) :
    Conn.Faithful { cn with tcb := tcb, lastUsed := used, replySeen := seen } :=
  ⟨faithful.source, faithful.destination, faithful.protocols⟩

theorem Table.create_lives (tid : TupleID A) (cn : Conn A τ)
    (found : (ct.create env tid).conns ct.created = some cn) :
    cn.timedOut env (ct.create env tid).now = false := by
  have newest := (update_self ..).symm.trans found
  cases newest
  simp [Conn.timedOut, create]

end

/-! Configuration. -/

variable {natType : NATType}

section

omit [DecidableEq A]

variable (reconfigured : cn.Reconfigured natType cn')
include reconfigured

theorem Conn.Reconfigured.faithful (faithful : cn.Faithful) : cn'.Faithful := by
  obtain ⟨source, destination, protocols⟩ := faithful
  cases reconfigured with
  | same => exact ⟨source, destination, protocols⟩
  | noop first =>
    cases natType with
    | dnat => exact ⟨fun _ => source (by simp_all [Conn.manip]), destination, protocols⟩
    | snat | unknown => exact ⟨source, fun _ => destination (by simp_all [Conn.manip]), protocols⟩
  | manipulated address port first =>
    cases natType with
    | dnat => exact ⟨fun other => absurd rfl other, destination, protocols⟩
    | snat => exact ⟨source, fun other => absurd rfl other, protocols⟩
    | unknown => exact ⟨source, fun other => absurd rfl other, protocols⟩

theorem Conn.Reconfigured.keeps :
    cn'.original = cn.original ∧ cn'.finalizeResult = cn.finalizeResult ∧ cn'.tcb = cn.tcb ∧
      cn'.lastUsed = cn.lastUsed := by
  cases reconfigured with
  | same => exact ⟨rfl, rfl, rfl, rfl⟩
  | noop first => cases natType <;> exact ⟨rfl, rfl, rfl, rfl⟩
  | manipulated address port first => cases natType <;> exact ⟨rfl, rfl, rfl, rfl⟩

theorem Conn.Reconfigured.reply_of_configured (configured : cn.manip natType ≠ .notPerformed) :
    cn'.reply = cn.reply := by
  cases reconfigured with
  | same => rfl
  | noop first => exact absurd first configured
  | manipulated address port first => exact absurd first configured

end

theorem Consistent.reconfigure (consistent : Consistent env ct) (found : ct.conns i = some cn)
    (reconfigured : cn.Reconfigured natType cn')
    (settled : cn.finalizeResult = some .success → cn'.reply = cn.reply) :
    Consistent env (ct.setConn i cn') := by
  obtain ⟨original, result, tcb, used⟩ := reconfigured.keeps
  refine consistent.modify found ⟨original, settled, result, fun lives => ?_, ?_,
    reconfigured.faithful (consistent.faithful i cn found)⟩
  · simpa only [Conn.timedOut, tcb, used] using lives
  · rw [used]
    exact consistent.past i cn found

theorem Conn.configureNoopNAT_dnat (noAddress : A) (pkt : Packet A θ) (rand : Nat → UInt32) :
    (cn.configureNoopNAT env ct i noAddress pkt .dnat rand).1.reply = cn.reply := by
  simp only [Conn.configureNoopNAT]
  split
  · rfl
  · rfl

/-! Finalization. -/

theorem Consistent.finalize (consistent : Consistent env ct) (found : ct.conns i = some cn)
    (held : cn.finalizeResult = none → ⟨i, false⟩ ∈ ct.buckets (env.bucket cn.original)) :
    Consistent env (ct.finalize env i cn).1 := by
  cases settled : cn.finalizeResult with
  | some result =>
    simp only [Table.finalize, settled]
    exact consistent
  | none =>
    have original := held settled
    have unpaired : ∀ b, (⟨i, true⟩ : TupleRef) ∉ ct.buckets b := by
      intro b member
      have success := consistent.inserted b _ member rfl cn found
      rw [settled] at success
      cases success
    simp only [Table.finalize, settled]
    cases lookup : ct.connForTID env cn.reply with
    | none =>
      simp only [finalizeTuples, lookup]
      refine consistent.settle found settled ?_ ?_ ?_ ?_ ?_
      · intro b ref member
        rcases mem_pushed.mp member with ⟨new, here⟩ | old
        · exact .inr ⟨new, here, rfl, lookup⟩
        · exact .inl old
      · exact fun b ref member _ => mem_pushed.mpr (.inr member)
      · exact nodup_pushed consistent.nodup (unpaired _)
      · exact fun _ => ⟨_, mem_pushed.mpr (.inr original)⟩
      · exact fun _ _ => ⟨_, mem_pushed.mpr (.inl ⟨rfl, rfl⟩)⟩
    | some ref =>
      obtain ⟨member, cn', known, identity, -⟩ := connForTID_some lookup
      simp only [finalizeTuples, lookup]
      split
      · next own =>
        -- only the original tuple of the connection is in the table
        refine consistent.settle found settled (fun _ _ inside => .inl inside)
          (fun _ _ inside _ => inside) consistent.nodup (fun _ => ⟨_, original⟩) ?_
        intro _ differ
        obtain ⟨conn, reply⟩ := ref
        cases own
        cases found.symm.trans known
        cases reply with
        | true => exact absurd member (unpaired _)
        | false => exact absurd identity differ
      have removed : ct.remove (env.bucket cn.original) ⟨i, false⟩ =
          { ct with buckets := fun b => (ct.buckets b).erase ⟨i, false⟩ } :=
        congrArg (fun buckets => { ct with buckets := buckets })
          (funext (remove_buckets fun other inside =>
            @Consistent.here A τ θ env ct cn ⟨i, false⟩ consistent found other inside))
      rw [removed]
      refine consistent.settle found settled ?_ ?_ ?_ ?_ ?_
      · exact fun b ref inside => .inl (List.mem_of_mem_erase inside)
      · intro b ref inside other
        have distinct : ref ≠ ⟨i, false⟩ := fun same => other (congrArg TupleRef.conn same)
        exact (List.mem_erase_of_ne distinct).mpr inside
      · exact fun b => (consistent.nodup b).erase _
      · intro success
        cases success
      · intro success
        cases success

/-! Runs. -/

/-- Translation is configured before the connection is finalized, and the connection is finalized
while its original tuple is in the table. -/
def Guarded (env : Env A τ θ) (ct : Table A τ) : Event A θ → Prop
  | .configureNAT i _ _ natType _ _ _ =>
    ∀ cn, ct.conns i = some cn → cn.finalizeResult = some .success →
      cn.manip natType ≠ .notPerformed
  | .configureNoopNAT i _ _ natType _ =>
    ∀ cn, ct.conns i = some cn → cn.finalizeResult = some .success →
      natType = .dnat ∨ cn.manip natType ≠ .notPerformed
  | .finalize i =>
    ∀ cn, ct.conns i = some cn → cn.finalizeResult = none →
      ⟨i, false⟩ ∈ ct.buckets (env.bucket cn.original)
  | _ => True

/-- The connections that were finalized are still there, with the same reply tuples. -/
def Table.Settled (ct ct' : Table A τ) : Prop :=
  ∀ i cn, ct.conns i = some cn → cn.finalizeResult = some .success →
    ∃ cn', ct'.conns i = some cn' ∧ cn'.finalizeResult = some .success ∧ cn'.reply = cn.reply

section

omit [DecidableEq A]

theorem Table.Settled.of_conns {ct' : Table A τ} (same : ct'.conns = ct.conns) : ct.Settled ct' :=
  fun _ cn found success => ⟨cn, same ▸ found, success, rfl⟩

theorem Table.Settled.trans {middle after : Table A τ} (first : ct.Settled middle)
    (second : middle.Settled after) : ct.Settled after := by
  intro i cn found success
  obtain ⟨cn', found', success', same⟩ := first i cn found success
  obtain ⟨cn'', found'', success'', same'⟩ := second i cn' found' success'
  exact ⟨cn'', found'', success'', same'.trans same⟩

theorem Table.Settled.setConn {buckets : Nat → List TupleRef} (found : ct.conns i = some cn)
    (result : cn.finalizeResult = some .success → cn'.finalizeResult = some .success)
    (reply : cn.finalizeResult = some .success → cn'.reply = cn.reply) :
    ct.Settled (setConn { ct with buckets := buckets } i cn') := by
  intro j value found' success
  by_cases same : j = i
  · subst same
    cases found.symm.trans found'
    exact ⟨cn', update_self .., result success, reply success⟩
  · exact ⟨value, (update_of_ne same _ _).trans found', success, rfl⟩

theorem Consistent.create_settled (consistent : Consistent env ct) (tid : TupleID A) :
    ct.Settled (ct.create env tid) := by
  intro j cn found success
  have old := Nat.ne_of_lt (consistent.exists_below found)
  exact ⟨cn, (update_of_ne old _ _).trans found, success, rfl⟩

end

theorem Consistent.updateConn (consistent : Consistent env ct) {ref : TupleRef}
    (lives : ∀ cn, ct.conns ref.conn = some cn → cn.timedOut env ct.now = false) (pkt : Packet A θ) :
    Consistent env (ct.updateConn env ref pkt) ∧ ct.Settled (ct.updateConn env ref pkt) := by
  cases found : ct.conns ref.conn with
  | none =>
    simp only [Table.updateConn, found]
    exact ⟨consistent, .of_conns rfl⟩
  | some cn =>
    simp only [Table.updateConn, found]
    obtain ⟨tcb, seen, updated⟩ := @Conn.update_keeps A τ θ env cn pkt ref.reply ct.now
    rw [updated]
    exact ⟨consistent.modify found ⟨rfl, fun _ => rfl, rfl, fun _ => lives cn found, Nat.le_refl _,
      (consistent.faithful _ cn found).update⟩, .setConn found id fun _ => rfl⟩

theorem Consistent.getConnAndUpdate (consistent : Consistent env ct) (pkt : Packet A θ) :
    Consistent env (ct.getConnAndUpdate env pkt).1 ∧ ct.Settled (ct.getConnAndUpdate env pkt).1 := by
  have same : Consistent env ct ∧ ct.Settled ct := ⟨consistent, .of_conns rfl⟩
  cases identified : getTupleID pkt with
  | none =>
    simp only [Table.getConnAndUpdate, identified]
    exact same
  | some answer =>
    obtain ⟨tid, allowNewConn⟩ := answer
    cases found : ct.connForTID env tid with
    | some ref =>
      simp only [Table.getConnAndUpdate, identified, found]
      split
      · exact same
      obtain ⟨-, cn, known, -, lives⟩ := connForTID_some found
      refine consistent.updateConn (fun other known' => ?_) pkt
      cases known.symm.trans known'
      exact lives
    | none =>
      simp only [Table.getConnAndUpdate, identified, found]
      split
      · exact same
      split
      · exact same
      · exact ((consistent.create found).updateConn (create_lives tid) pkt).imp_right
          (consistent.create_settled tid).trans

theorem Table.finalize_settled (found : ct.conns i = some cn) : ct.Settled (ct.finalize env i cn).1 := by
  cases settled : cn.finalizeResult with
  | some result =>
    simp only [finalize, settled]
    exact .of_conns rfl
  | none =>
    have unsettled : ∀ {p : Prop}, cn.finalizeResult = some .success → p := fun success =>
      nomatch settled.symm.trans success
    have tuples : ∃ buckets, (ct.finalizeTuples env i cn).1 = { ct with buckets := buckets } := by
      simp only [finalizeTuples]
      split
      · exact ⟨_, rfl⟩
      · split <;> exact ⟨_, rfl⟩
    obtain ⟨buckets, tuples⟩ := tuples
    simp only [finalize, settled, tuples]
    exact .setConn found unsettled unsettled

omit [DecidableEq A] in
theorem Conn.Reconfigured.settled (reconfigured : cn.Reconfigured natType cn')
    (found : ct.conns i = some cn) (reply : cn.finalizeResult = some .success → cn'.reply = cn.reply) :
    ct.Settled (ct.setConn i cn') :=
  .setConn found (fun success => reconfigured.keeps.2.1.trans success) reply

theorem Consistent.step (consistent : Consistent env ct) {event : Event A θ} {next : Table A τ}
    (guarded : Guarded env ct event) (stepped : step env ct event = some next) :
    Consistent env next ∧ ct.Settled next := by
  cases event with
  | getConnAndUpdate pkt =>
    cases stepped
    exact consistent.getConnAndUpdate pkt
  | configureNAT i range natAddress natType changePort changeAddress rand =>
    cases found : ct.conns i with
    | none => simp [ConnTrack.step, found] at stepped
    | some cn =>
      simp only [ConnTrack.step, found, Option.some.injEq] at stepped
      subst stepped
      have reconfigured : cn.Reconfigured natType
          (cn.configureNAT env ct i range natAddress natType changePort changeAddress rand).1 :=
        cn.configureNAT_reconfigured i natAddress changePort changeAddress rand
      have reply := fun success =>
        reconfigured.reply_of_configured (guarded cn found success)
      exact ⟨consistent.reconfigure found reconfigured reply, reconfigured.settled found reply⟩
  | configureNoopNAT i noAddress pkt natType rand =>
    cases found : ct.conns i with
    | none => simp [ConnTrack.step, found] at stepped
    | some cn =>
      simp only [ConnTrack.step, found, Option.some.injEq] at stepped
      subst stepped
      let after := (cn.configureNoopNAT env ct i noAddress pkt natType rand).1
      have reconfigured : cn.Reconfigured natType after := cn.configureNoopNAT_reconfigured i noAddress pkt rand
      have reply : cn.finalizeResult = some .success → after.reply = cn.reply := by
        intro success
        rcases guarded cn found success with rfl | configured
        · exact Conn.configureNoopNAT_dnat noAddress pkt rand
        · exact reconfigured.reply_of_configured configured
      exact ⟨consistent.reconfigure found reconfigured reply, reconfigured.settled found reply⟩
  | finalize i =>
    cases found : ct.conns i with
    | none => simp [ConnTrack.step, found] at stepped
    | some cn =>
      simp only [ConnTrack.step, found, Option.some.injEq] at stepped
      subst stepped
      exact ⟨consistent.finalize found (guarded cn found), finalize_settled found⟩
  | reapUnused start prevInterval =>
    cases stepped
    have shrinks := reapUnused_shrinks start prevInterval consistent
    exact ⟨consistent.shrink shrinks, .of_conns shrinks.conns⟩
  | advance duration =>
    cases stepped
    exact ⟨consistent.advance duration, .of_conns rfl⟩

theorem Consistent.run {after : Table A τ} (consistent : Consistent env ct)
    {events : List (Event A θ)} (ran : run (ConnTrack.step env) ct events = some after)
    (guarded : Along (ConnTrack.step env) (Guarded env) ct events) :
    Consistent env after ∧ ct.Settled after := by
  refine run_invariant_along (fun state => Consistent env state ∧ ct.Settled state) ?_ ran guarded
    ⟨consistent, .of_conns rfl⟩
  intro state event next kept allowed stepped
  obtain ⟨consistent', settled⟩ := kept.1.step allowed stepped
  exact ⟨consistent', kept.2.trans settled⟩

/-- In every guarded run: tuples are in the buckets of their identities, no two connections that
live have the same one, finalized connections keep their reply tuples from then on and have both
tuples in the table or none, and the reaper empties the table once all connections timed out. -/
theorem guarded_run_consistent {events : List (Event A θ)} (ran : run (step env) Table.new events = some ct)
    (guarded : Along (step env) (Guarded env) Table.new events) :
    (∀ b ref, ref ∈ ct.buckets b →
      ∃ cn, ct.conns ref.conn = some cn ∧ env.bucket (cn.tupleID ref.reply) = b) ∧
    (∀ ref cn, ct.Holds ref → ct.conns ref.conn = some cn → cn.timedOut env ct.now = false →
      ∀ other cn', ct.Holds other → ct.conns other.conn = some cn' →
      cn'.timedOut env ct.now = false →
      cn.tupleID ref.reply = cn'.tupleID other.reply → ref.conn = other.conn) ∧
    (∀ later after, run (step env) ct later = some after → Along (step env) (Guarded env) ct later →
      ∀ i cn, ct.conns i = some cn → cn.finalizeResult = some .success →
      ∃ cn', after.conns i = some cn' ∧ cn'.reply = cn.reply) ∧
    (∀ i cn, ct.conns i = some cn → cn.finalizeResult = some .success → cn.original ≠ cn.reply →
      (ct.Holds ⟨i, false⟩ ↔ ct.Holds ⟨i, true⟩)) ∧
    ∀ duration, establishedTimeout < duration → ∃ calls, ∀ waits : List Nat,
      calls ≤ waits.length → ∀ start prevInterval b,
      ({ ct with now := ct.now + duration }.reapRepeatedly env waits start prevInterval).buckets b = [] := by
  have consistent := (Consistent.new.run ran guarded).1
  refine ⟨?_, consistent.unique, ?_, consistent.paired, ?_⟩
  · intro b ref member
    obtain ⟨cn, found⟩ := consistent.known b ref member
    exact ⟨cn, found, consistent.placed b ref member cn found⟩
  · intro later after ran' guarded' i cn found success
    obtain ⟨cn', found', -, same⟩ := (consistent.run ran' guarded').2 i cn found success
    exact ⟨cn', found', same⟩
  · intro duration long
    refine ⟨128 * ct.load, fun waits enough start prevInterval b => ?_⟩
    exact Table.reapRepeatedly_empties ct.load start prevInterval (consistent.expired long)
      (Nat.le_refl _) enough b

/-! A table with datagrams to a name server. -/

def datagramEnv : Env Nat Unit Unit where
  tcb :=
    { zero := ()
      isEmpty := fun _ => true
      init := fun _ _ => ()
      updateStateReply := fun _ _ => ()
      updateStateOriginal := fun _ _ => ()
      alive := fun _ => false }
  tupleHash := fun id => id.srcAddr + id.dstPortOrEchoReplyIdent.toNat

def query : Packet Nat Unit where
  netProto := .ipv4
  srcAddr := 1
  dstAddr := 2
  transport := .udp 1000 53
  valid := true
  tuple := none
  dnatDone := false
  snatDone := false

def redirect : Event Nat Unit := .configureNAT 0 ⟨1053, 1⟩ 3 .dnat false true fun _ => 0

theorem redirect_then_finalize_consistent :
    ∃ ct cn, run (step datagramEnv) Table.new [.getConnAndUpdate query, redirect, .finalize 0] =
        some ct ∧ ct.conns 0 = some cn ∧ cn.reply.srcAddr = 3 ∧ ct.Holds ⟨0, false⟩ ∧
      (ct.Holds ⟨0, false⟩ ↔ ct.Holds ⟨0, true⟩) := by
  have guarded : Along (step datagramEnv) (Guarded datagramEnv) Table.new
      [.getConnAndUpdate query, redirect, .finalize 0] := by
    refine ⟨trivial, fun next stepped => ?_⟩
    cases stepped
    refine ⟨fun cn found success => ?_, fun next stepped => ?_⟩
    · cases Option.some.inj found
      cases success
    · cases stepped
      refine ⟨fun cn found _ => ?_, fun _ _ => trivial⟩
      cases Option.some.inj found
      decide
  have consistent := guarded_run_consistent rfl guarded
  exact ⟨_, _, rfl, rfl, rfl, ⟨54, by decide⟩,
    consistent.2.2.2.1 0 _ rfl rfl (by decide)⟩

def queried : Table Nat Unit :=
  { (Table.new.getConnAndUpdate datagramEnv query).1 with now := 121 * 10 ^ 9 }

theorem queried_buckets {b : Nat} (other : b ≠ 54) : queried.buckets b = [] := by
  have buckets : queried.buckets = Function.update (fun _ => []) 54 [⟨0, false⟩] := rfl
  rw [buckets, update_of_ne other]

theorem queried_emptied (b : Nat) : (queried.remove 54 ⟨0, false⟩).buckets b = [] := by
  by_cases here : b = 54
  · subst here
    rfl
  · simp [remove, queried_buckets here]

theorem queried_reaped :
    (queried.reapUnused datagramEnv 16311 0).1 = queried.remove 54 ⟨0, false⟩ := by
  have passed : ∀ k < 127, queried.buckets ((k + 16311) % numBuckets) = [] := by
    intro k below
    have other : (k + 16311) % numBuckets ≠ 54 := by
      simp only [numBuckets]
      omega
    exact queried_buckets other
  exact reapUnused_last 0 passed rfl

/-- Translation that is configured after the finalization changes the reply tuple in its bucket.
A connection that is finalized after its original tuple was reaped has only its reply tuple in the
table. -/
theorem unguarded_runs_inconsistent :
    (∃ before ct cn cn', run (step datagramEnv) Table.new [.getConnAndUpdate query, .finalize 0] =
        some before ∧ before.conns 0 = some cn ∧ cn.finalizeResult = some .success ∧
      step datagramEnv before redirect = some ct ∧ ct.conns 0 = some cn' ∧
      cn'.reply ≠ cn.reply ∧ ⟨0, true⟩ ∈ ct.buckets 1002 ∧
      datagramEnv.bucket (cn'.tupleID true) ≠ 1002) ∧
    ∃ ct cn, run (step datagramEnv) Table.new [.getConnAndUpdate query, .advance (121 * 10 ^ 9),
        .reapUnused 16311 0, .finalize 0] = some ct ∧ ct.conns 0 = some cn ∧
      cn.finalizeResult = some .success ∧ cn.original ≠ cn.reply ∧ ct.Holds ⟨0, true⟩ ∧
      ¬ ct.Holds ⟨0, false⟩ := by
  constructor
  · exact ⟨_, _, _, _, rfl, rfl, rfl, rfl, rfl, by decide, by decide, by decide⟩
  · have reaped : step datagramEnv queried (.reapUnused 16311 0) =
        some (queried.remove 54 ⟨0, false⟩) := congrArg some queried_reaped
    have ran : run (step datagramEnv) Table.new [.getConnAndUpdate query, .advance (121 * 10 ^ 9),
        .reapUnused 16311 0, .finalize 0] =
        run (step datagramEnv) (queried.remove 54 ⟨0, false⟩) [.finalize 0] := run_cons reaped
    refine ⟨_, _, ran.trans rfl, rfl, rfl, by decide, ⟨1002, by decide⟩, ?_⟩
    rintro ⟨b, member⟩
    rcases mem_pushed.mp member with ⟨same, -⟩ | member
    · cases same
    · exact List.not_mem_nil (queried_emptied b ▸ member)

end BVisor.ConnTrack
