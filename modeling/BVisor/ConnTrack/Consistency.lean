import BVisor.Data.Run
import BVisor.ConnTrack.Nat

/-! What the calls on a connection tracking table keep, when translation is configured only before a
connection is finalized, and a connection is finalized only while it is in the table. -/

namespace BVisor.ConnTrack

open Data Function

variable {A τ θ : Type} [DecidableEq A] {env : Env A τ θ} {b : Nat}

/-! What the configuration of translation changes. -/

/-- The connection keeps all but the manipulated part of its reply tuple. -/
inductive Conn.Reconfigured (natType : NATType) (cn : Conn A τ) : Conn A τ → Prop where
  | same : Reconfigured natType cn cn
  | noop (first : cn.manip natType = .notPerformed) : Reconfigured natType cn (cn.setManip natType .performedNoop)
  | manipulated (address : A) (port : UInt16) (first : cn.manip natType = .notPerformed) :
      Reconfigured natType cn
        (((cn.setManip natType .performed).setAddress natType address).setPortOrIdent natType port)

section Configuring

variable {ct : Table A τ} {range : PortOrIdentRange} {natType : NATType}

namespace Conn

omit [DecidableEq A] in
theorem setPortOrIdent_twice (cn : Conn A τ) (first second : UInt16) :
    (cn.setPortOrIdent natType first).setPortOrIdent natType second =
      cn.setPortOrIdent natType second := by
  cases natType <;> rfl

omit [DecidableEq A] in
theorem setPortOrIdent_same (cn : Conn A τ) : cn.setPortOrIdent natType (cn.portOrIdent natType) = cn := by
  cases natType <;> rfl

theorem tryPorts_port (randOffset : UInt32) (attempts : Nat) (i : UInt32) (cn : Conn A τ) :
    ∃ port, (cn.tryPorts env ct range natType randOffset attempts i).1 =
      cn.setPortOrIdent natType port := by
  induction attempts generalizing i cn with
  | zero => exact ⟨_, (setPortOrIdent_same cn).symm⟩
  | succ attempts ih =>
    simp only [tryPorts]
    split
    · exact ih (i + 1) cn
    split
    · exact ⟨_, rfl⟩
    · obtain ⟨port, changed⟩ := ih (i + 1) (cn.setPortOrIdent natType _)
      exact ⟨port, changed.trans (setPortOrIdent_twice cn _ port)⟩

theorem searchPort_port (rand : Nat → UInt32) (round maxAttempts : Nat) (cn : Conn A τ) :
    ∃ port, (cn.searchPort env ct range natType rand round maxAttempts).1 =
      cn.setPortOrIdent natType port := by
  fun_induction searchPort env ct range natType rand round maxAttempts cn with
  | case1 => exact tryPorts_port _ _ _ _
  | case2 => exact tryPorts_port _ _ _ _
  | case3 => exact tryPorts_port _ _ _ _
  | case4 round maxAttempts cn tried failed unlimited many ih =>
    obtain ⟨first, tries⟩ : ∃ port, tried.1 = cn.setPortOrIdent natType port := tryPorts_port _ _ _ _
    obtain ⟨port, changed⟩ := ih
    exact ⟨port, changed.trans (by rw [tries, setPortOrIdent_twice])⟩

theorem configureNAT_reconfigured (i : Nat) (cn : Conn A τ) (natAddress : A)
    (changePort changeAddress : Bool) (rand : Nat → UInt32) :
    cn.Reconfigured natType
      (cn.configureNAT env ct i range natAddress natType changePort changeAddress rand).1 := by
  simp only [configureNAT]
  split
  · exact .same
  split
  · exact .same
  next first =>
  have first : cn.manip natType = .notPerformed := not_not.mp first
  have addressed : ∃ address,
      (if changeAddress then (cn.setManip natType .performed).setAddress natType natAddress
        else cn.setManip natType .performed) =
        (cn.setManip natType .performed).setAddress natType address := by
    cases changeAddress with
    | true => exact ⟨natAddress, rfl⟩
    | false => cases natType <;> exact ⟨_, rfl⟩
  obtain ⟨address, addressed⟩ := addressed
  rw [addressed]
  let manipulated := (cn.setManip natType .performed).setAddress natType address
  have kept : cn.Reconfigured natType manipulated := by
    have again := Reconfigured.manipulated address (manipulated.portOrIdent natType) first
    rwa [setPortOrIdent_same] at again
  have searched : cn.Reconfigured natType
      (manipulated.searchPort env ct range natType rand 0
        (min maxAttemptsForInitialRound range.size.toNat)).1 := by
    obtain ⟨port, changed⟩ := @searchPort_port A τ θ _ env ct range natType rand 0
      (min maxAttemptsForInitialRound range.size.toNat) manipulated
    rw [changed]
    exact .manipulated address port first
  have either : ∀ (keeps : Prop) [Decidable keeps], cn.Reconfigured natType
      (if keeps then (manipulated, true)
        else manipulated.searchPort env ct range natType rand 0
          (min maxAttemptsForInitialRound range.size.toNat)).1 := by
    intro keeps _
    split
    · exact kept
    · exact searched
  split
  · exact kept
  · exact either _

theorem configureNoopNAT_reconfigured (i : Nat) (cn : Conn A τ) (noAddress : A)
    (pkt : Packet A θ) (rand : Nat → UInt32) :
    cn.Reconfigured natType (cn.configureNoopNAT env ct i noAddress pkt natType rand).1 := by
  rw [configureNoopNAT]
  split
  · exact .same
  next first =>
  split
  · exact .noop (not_not.mp first)
  · exact configureNAT_reconfigured i cn noAddress true false rand

end Conn

end Configuring

/-! What holds between the calls. -/

/-- The reply tuple of a connection, where translation has not changed it. -/
structure Conn.Faithful (cn : Conn A τ) : Prop where
  source : cn.destinationManip ≠ .performed →
    cn.reply.srcAddr = cn.original.dstAddr ∧
      cn.reply.srcPortOrEchoRequestIdent = cn.original.dstPortOrEchoReplyIdent
  destination : cn.sourceManip ≠ .performed →
    cn.reply.dstAddr = cn.original.srcAddr ∧
      cn.reply.dstPortOrEchoReplyIdent = cn.original.srcPortOrEchoRequestIdent
  protocols : cn.reply.transProto = cn.original.transProto ∧
    cn.reply.netProto = cn.original.netProto

def Table.Holds (ct : Table A τ) (ref : TupleRef) : Prop := ∃ b, ref ∈ ct.buckets b

structure Consistent (env : Env A τ θ) (ct : Table A τ) : Prop where
  fresh : ∀ i, ct.created ≤ i → ct.conns i = none
  known : ∀ b ref, ref ∈ ct.buckets b → ∃ cn, ct.conns ref.conn = some cn
  placed : ∀ b ref, ref ∈ ct.buckets b → ∀ cn, ct.conns ref.conn = some cn → env.bucket (cn.tupleID ref.reply) = b
  nodup : ∀ b, (ct.buckets b).Nodup
  inserted : ∀ b ref, ref ∈ ct.buckets b → ref.reply = true → ∀ cn, ct.conns ref.conn = some cn →
    cn.finalizeResult = some .success
  paired : ∀ i cn, ct.conns i = some cn → cn.finalizeResult = some .success →
    cn.original ≠ cn.reply → (ct.Holds ⟨i, false⟩ ↔ ct.Holds ⟨i, true⟩)
  live : ∀ i cn, ct.conns i = some cn → cn.finalizeResult = some .success →
    cn.timedOut env ct.now = false → ct.Holds ⟨i, false⟩
  unique : ∀ ref cn, ct.Holds ref → ct.conns ref.conn = some cn →
    cn.timedOut env ct.now = false →
    ∀ other cn', ct.Holds other → ct.conns other.conn = some cn' →
    cn'.timedOut env ct.now = false →
    cn.tupleID ref.reply = cn'.tupleID other.reply → ref.conn = other.conn
  past : ∀ i cn, ct.conns i = some cn → cn.lastUsed ≤ ct.now
  faithful : ∀ i cn, ct.conns i = some cn → cn.Faithful

open Table

omit [DecidableEq A] in
theorem Consistent.new : Consistent env (new : Table A τ) where
  fresh := fun _ _ => rfl
  known := fun _ _ member => nomatch member
  placed := fun _ _ member => nomatch member
  nodup := fun _ => List.nodup_nil
  inserted := fun _ _ member => nomatch member
  paired := fun _ _ found => nomatch found
  live := fun _ _ found => nomatch found
  unique := fun _ _ ⟨_, member⟩ => nomatch member
  past := fun _ _ found => nomatch found
  faithful := fun _ _ found => nomatch found

section Steps

variable {ct : Table A τ} {i : Nat} {cn cn' : Conn A τ}

omit [DecidableEq A] in
theorem Table.setConn_conns (j : Nat) (value : Conn A τ) :
    (ct.setConn i cn').conns j = some value →
      j = i ∧ value = cn' ∨ j ≠ i ∧ ct.conns j = some value := by
  intro found
  by_cases same : j = i
  · subst same
    change Function.update ct.conns j (some cn') j = some value at found
    rw [update_self] at found
    cases found
    exact .inl ⟨rfl, rfl⟩
  · exact .inr ⟨same, (update_of_ne same _ _).symm.trans found⟩

/-- The connection after a change that does not concern its place in the table. -/
structure Conn.Follows (env : Env A τ θ) (now : Nat) (cn cn' : Conn A τ) : Prop where
  original : cn'.original = cn.original
  reply : cn.finalizeResult = some .success → cn'.reply = cn.reply
  result : cn'.finalizeResult = cn.finalizeResult
  lives : cn'.timedOut env now = false → cn.timedOut env now = false
  past : cn'.lastUsed ≤ now
  faithful : cn'.Faithful

/-! Looking a tuple up. -/

variable {ref : TupleRef} {tid : TupleID A}

theorem Table.isConnFor_iff :
    ct.isConnFor env tid ref = true ↔
      ∃ cn, ct.conns ref.conn = some cn ∧ cn.tupleID ref.reply = tid ∧
        cn.timedOut env ct.now = false := by
  cases found : ct.conns ref.conn with
  | none => simp [isConnFor, found]
  | some cn =>
    simp only [isConnFor, found, Bool.and_eq_true, decide_eq_true_eq, Bool.not_eq_true',
      Option.some.injEq, exists_eq_left']
    exact and_congr_left' eq_comm

theorem Table.connForTID_some (found : ct.connForTID env tid = some ref) :
    ref ∈ ct.buckets (env.bucket tid) ∧ ∃ cn, ct.conns ref.conn = some cn ∧
      cn.tupleID ref.reply = tid ∧ cn.timedOut env ct.now = false :=
  ⟨List.mem_of_find?_eq_some found, isConnFor_iff.mp (List.find?_some found)⟩

theorem Consistent.connForTID_none (consistent : Consistent env ct)
    (missing : ct.connForTID env tid = none) (held : ct.Holds ref)
    (found : ct.conns ref.conn = some cn) (lives : cn.timedOut env ct.now = false) :
    cn.tupleID ref.reply ≠ tid := by
  intro same
  obtain ⟨b, member⟩ := held
  have placed := consistent.placed b ref member cn found
  rw [same] at placed
  subst placed
  exact List.find?_eq_none.mp missing ref member (isConnFor_iff.mpr ⟨cn, found, same, lives⟩)

/-! Taking tuples out. -/

/-- Tuples leave the table only with their connection, after it timed out. -/
structure Table.Shrinks (env : Env A τ θ) (ct ct' : Table A τ) : Prop where
  conns : ct'.conns = ct.conns
  created : ct'.created = ct.created
  now : ct'.now = ct.now
  sublist : ∀ b, (ct'.buckets b).Sublist (ct.buckets b)
  gone : ∀ b ref, ref ∈ ct.buckets b → ref ∈ ct'.buckets b ∨
    ∃ cn, ct.conns ref.conn = some cn ∧ cn.timedOut env ct.now = true ∧
      (cn.finalizeResult = some .success → ∀ reply, ¬ ct'.Holds ⟨ref.conn, reply⟩)

omit [DecidableEq A] in
theorem Table.Shrinks.refl : ct.Shrinks env ct :=
  ⟨rfl, rfl, rfl, fun _ => List.Sublist.refl _, fun _ _ member => .inl member⟩

variable {ct' : Table A τ}

section

omit [DecidableEq A]

theorem Table.Shrinks.holds (shrinks : ct.Shrinks env ct') (held : ct'.Holds ref) : ct.Holds ref := by
  obtain ⟨b, member⟩ := held
  exact ⟨b, (shrinks.sublist b).subset member⟩

theorem Table.Shrinks.trans {middle after : Table A τ} (first : ct.Shrinks env middle)
    (second : middle.Shrinks env after) : ct.Shrinks env after := by
  constructor
  · exact second.conns.trans first.conns
  · exact second.created.trans first.created
  · exact second.now.trans first.now
  · exact fun b => (second.sublist b).trans (first.sublist b)
  · intro b ref member
    rcases first.gone b ref member with stays | ⟨cn, found, dead, absent⟩
    · have later := second.gone b ref stays
      rwa [first.conns, first.now] at later
    · exact .inr ⟨cn, found, dead, fun success reply held =>
        absent success reply (second.holds held)⟩

theorem Table.Shrinks.pair (shrinks : ct.Shrinks env ct')
    (found : ct.conns i = some cn) (success : cn.finalizeResult = some .success)
    {reply other : Bool} (both : ct.Holds ⟨i, reply⟩ → ct.Holds ⟨i, other⟩)
    (held : ct'.Holds ⟨i, reply⟩) : ct'.Holds ⟨i, other⟩ := by
  obtain ⟨b, member⟩ := both (shrinks.holds held)
  rcases shrinks.gone b _ member with stays | ⟨_, found', _, absent⟩
  · exact ⟨b, stays⟩
  · cases found.symm.trans found'
    exact absurd held (absent success reply)

theorem Consistent.shrink (consistent : Consistent env ct)
    (shrinks : ct.Shrinks env ct') : Consistent env ct' := by
  have sublist := shrinks.sublist
  have gone := shrinks.gone
  have subset : ∀ {b ref}, ref ∈ ct'.buckets b → ref ∈ ct.buckets b :=
    fun {b _} member => (sublist b).subset member
  obtain ⟨conns, created, buckets, now⟩ := ct'
  obtain ⟨rfl, rfl, rfl, -, -⟩ := id shrinks
  refine ⟨consistent.fresh, fun b ref member => consistent.known b ref (subset member),
    fun b ref member => consistent.placed b ref (subset member),
    fun b => (consistent.nodup b).sublist (sublist b),
    fun b ref member => consistent.inserted b ref (subset member), ?_, ?_, ?_, consistent.past, consistent.faithful⟩
  · intro j value found success differ
    have paired := consistent.paired j value found success differ
    exact ⟨shrinks.pair found success paired.mp, shrinks.pair found success paired.mpr⟩
  · intro j value found success lives
    obtain ⟨b, member⟩ := consistent.live j value found success lives
    rcases gone b _ member with stays | ⟨_, found', dead, _⟩
    · exact ⟨b, stays⟩
    · cases found.symm.trans found'
      cases lives.symm.trans dead
  · intro ref value held found lives other value' held' found' lives'
    exact consistent.unique ref value (shrinks.holds held) found lives other value'
      (shrinks.holds held') found' lives'

theorem Table.remove_buckets (here : ∀ other, ref ∈ ct.buckets other → other = b) (other : Nat) :
    (ct.remove b ref).buckets other = (ct.buckets other).erase ref := by
  refine if_neg fun misplaced => ?_
  have first := List.mem_of_head? misplaced.2
  exact misplaced.1 (here other first)

end

/-! Time. -/

omit [DecidableEq A] in
theorem Conn.timedOut_mono {now later : Nat} (le : now ≤ later)
    (lives : cn.timedOut env later = false) : cn.timedOut env now = false := by
  unfold Conn.timedOut at lives ⊢
  split
  all_goals
    simp_all only [if_true, Bool.false_eq_true, if_false, decide_eq_false_iff_not]
    omega

omit [DecidableEq A] in
theorem Consistent.advance (consistent : Consistent env ct) (duration : Nat) :
    Consistent env { ct with now := ct.now + duration } where
  fresh := consistent.fresh
  known := consistent.known
  placed := consistent.placed
  nodup := consistent.nodup
  inserted := consistent.inserted
  paired := consistent.paired
  live := fun j value found success lives =>
    consistent.live j value found success (Conn.timedOut_mono (Nat.le_add_right _ _) lives)
  unique := fun ref value held found lives other value' held' found' lives' =>
    consistent.unique ref value held found (Conn.timedOut_mono (Nat.le_add_right _ _) lives)
      other value' held' found' (Conn.timedOut_mono (Nat.le_add_right _ _) lives')
  past := fun j value found => Nat.le_add_right_of_le (consistent.past j value found)
  faithful := consistent.faithful

end Steps

/-! Putting tuples in. -/

section Adding

variable {ct : Table A τ} {i : Nat} {cn cn' : Conn A τ}
  {buckets : Nat → List TupleRef} {bs : Nat → List TupleRef}

theorem mem_pushed {other : Nat} {ref pushed : TupleRef} :
    ref ∈ Function.update buckets b (pushed :: buckets b) other ↔
      ref = pushed ∧ other = b ∨ ref ∈ buckets other := by
  by_cases same : other = b
  · subst same
    simp
  · simp [same]

theorem nodup_pushed {pushed : TupleRef}
    (nodup : ∀ other, (buckets other).Nodup) (absent : pushed ∉ buckets b) (other : Nat) :
    (Function.update buckets b (pushed :: buckets b) other).Nodup := by
  by_cases same : other = b
  · subst same
    rw [update_self]
    exact List.nodup_cons.mpr ⟨absent, nodup other⟩
  · rw [update_of_ne same]
    exact nodup other

omit [DecidableEq A] in
theorem Consistent.exists_below (consistent : Consistent env ct) (found : ct.conns i = some cn) :
    i < ct.created := by
  by_contra late
  rw [consistent.fresh i (Nat.not_lt.mp late)] at found
  cases found

omit [DecidableEq A] in
theorem Consistent.conn_below (consistent : Consistent env ct) {ref : TupleRef}
    (member : ref ∈ ct.buckets b) : ref.conn < ct.created := by
  obtain ⟨_, found⟩ := consistent.known b ref member
  exact consistent.exists_below found

theorem Consistent.put {n : Nat} (consistent : Consistent env ct)
    (counted : ct.created ≤ n) (below : i < n) (past : cn'.lastUsed ≤ ct.now) (faithful : cn'.Faithful)
    (stays : ∀ b ref, ref.conn ≠ i → (ref ∈ bs b ↔ ref ∈ ct.buckets b)) (nodup : ∀ b, (bs b).Nodup)
    (arrives : ∀ b side, ⟨i, side⟩ ∈ bs b →
      (∃ cn, ⟨i, side⟩ ∈ ct.buckets b ∧ ct.conns i = some cn ∧ cn'.tupleID side = cn.tupleID side ∧
        (cn'.timedOut env ct.now = false → cn.timedOut env ct.now = false)) ∨
      env.bucket (cn'.tupleID side) = b ∧ ct.connForTID env (cn'.tupleID side) = none)
    (inserted : ∀ b, ⟨i, true⟩ ∈ bs b → cn'.finalizeResult = some .success)
    (paired : cn'.finalizeResult = some .success → cn'.original ≠ cn'.reply →
      ((∃ b, ⟨i, false⟩ ∈ bs b) ↔ ∃ b, ⟨i, true⟩ ∈ bs b))
    (live : cn'.finalizeResult = some .success → cn'.timedOut env ct.now = false → ∃ b, ⟨i, false⟩ ∈ bs b) :
    Consistent env (setConn { ct with buckets := bs, created := n } i cn') := by
  let after := setConn { ct with buckets := bs, created := n } i cn'
  have which {j value} (now : after.conns j = some value) := setConn_conns j value now
  have holds {j side} (other : j ≠ i) : after.Holds ⟨j, side⟩ ↔ ct.Holds ⟨j, side⟩ :=
    exists_congr fun b => stays b _ other
  -- a tuple was in the table with the same identity, or its identity is new there
  have tuple {b ref value} (member : ref ∈ bs b) (now : after.conns ref.conn = some value) :
      (∃ old, ref ∈ ct.buckets b ∧ ct.conns ref.conn = some old ∧
        value.tupleID ref.reply = old.tupleID ref.reply ∧
        (value.timedOut env ct.now = false → old.timedOut env ct.now = false)) ∨
      ref.conn = i ∧ env.bucket (value.tupleID ref.reply) = b ∧
        ct.connForTID env (value.tupleID ref.reply) = none := by
    rcases which now with ⟨rfl, rfl⟩ | ⟨other, known⟩
    · rcases arrives b ref.reply member with old | new
      · exact .inl old
      · exact .inr ⟨rfl, new⟩
    · exact .inl ⟨value, (stays b ref other).mp member, known, rfl, id⟩
  constructor
  · intro j late
    have late : n ≤ j := late
    exact (update_of_ne (by omega) _ _).trans (consistent.fresh j (by omega))
  · intro b ref member
    by_cases same : ref.conn = i
    · rw [same]
      exact ⟨_, update_self ..⟩
    · obtain ⟨value, known⟩ := consistent.known b ref ((stays b ref same).mp member)
      exact ⟨value, (update_of_ne same _ _).trans known⟩
  · intro b ref member value now
    rcases tuple member now with ⟨old, member, known, same, -⟩ | ⟨-, here, -⟩
    · rw [same]
      exact consistent.placed b ref member old known
    · exact here
  · exact nodup
  · intro b ref member isReply value now
    rcases which now with ⟨rfl, rfl⟩ | ⟨other, known⟩
    · cases ref
      cases isReply
      exact inserted b member
    · exact consistent.inserted b ref ((stays b ref other).mp member) isReply value known
  · intro j value now success differ
    rcases which now with ⟨rfl, rfl⟩ | ⟨other, known⟩
    · exact paired success differ
    · rw [holds other, holds other]
      exact consistent.paired j value known success differ
  · intro j value now success alive
    rcases which now with ⟨rfl, rfl⟩ | ⟨other, known⟩
    · exact live success alive
    · rw [holds other]
      exact consistent.live j value known success alive
  · intro ref value ⟨b, member⟩ now alive other value' ⟨b', member'⟩ now' alive' same
    rcases tuple member now with ⟨old, member, known, identity, lived⟩ | ⟨new, -, missing⟩
    · rcases tuple member' now' with ⟨old', member', known', identity', lived'⟩ | ⟨-, -, missing⟩
      · rw [identity, identity'] at same
        exact consistent.unique ref old ⟨b, member⟩ known (lived alive) other old' ⟨b', member'⟩ known'
          (lived' alive') same
      · have distinct := consistent.connForTID_none missing ⟨b, member⟩ known (lived alive)
        exact absurd (identity.symm.trans same) distinct
    · rcases tuple member' now' with ⟨old', member', known', identity', lived'⟩ | ⟨new', -, -⟩
      · have distinct := consistent.connForTID_none missing ⟨b', member'⟩ known' (lived' alive')
        exact absurd (identity'.symm.trans same.symm) distinct
      · exact new.trans new'.symm
  · intro j value now
    rcases which now with ⟨-, rfl⟩ | ⟨-, known⟩
    · exact past
    · exact consistent.past j value known
  · intro j value now
    rcases which now with ⟨-, rfl⟩ | ⟨-, known⟩
    · exact faithful
    · exact consistent.faithful j value known

theorem Consistent.create (consistent : Consistent env ct) {tid : TupleID A}
    (missing : ct.connForTID env tid = none) : Consistent env (ct.create env tid) := by
  have absent {b side} : ⟨ct.created, side⟩ ∉ ct.buckets b :=
    fun member => Nat.lt_irrefl _ (consistent.conn_below member)
  refine consistent.put (i := ct.created) (n := ct.created + 1) (by omega) (by omega) (Nat.le_refl _) ?_
    (fun b ref other => ?_) (nodup_pushed consistent.nodup absent) (fun b side member => .inr ?_)
    (fun b member => ?_) nofun nofun
  · constructor <;> simp [TupleID.reply]
  · exact mem_pushed.trans (or_iff_right fun new => other (congrArg TupleRef.conn new.1))
  · rcases mem_pushed.mp member with ⟨new, rfl⟩ | old
    · cases new
      exact ⟨rfl, missing⟩
    · exact absurd old absent
  · rcases mem_pushed.mp member with ⟨new, -⟩ | old
    · cases new
    · exact absurd old absent

theorem Consistent.modify (consistent : Consistent env ct) (found : ct.conns i = some cn)
    (follows : cn.Follows env ct.now cn') : Consistent env (ct.setConn i cn') := by
  have success := follows.result.symm.trans (c := some .success)
  refine consistent.put (Nat.le_refl _) (consistent.exists_below found) follows.past follows.faithful
    (fun _ _ _ => Iff.rfl) consistent.nodup
    (fun b side member => .inl ⟨cn, member, found, ?_, follows.lives⟩)
    (fun b member => follows.result.trans (consistent.inserted b _ member rfl cn found)) ?_
    (fun settled alive => consistent.live i cn found (success settled) (follows.lives alive))
  · cases side with
    | false => exact follows.original
    | true => exact follows.reply (consistent.inserted b _ member rfl cn found)
  · intro settled differ
    rw [follows.original, follows.reply (success settled)] at differ
    exact consistent.paired i cn found (success settled) differ

theorem Consistent.settle {result : FinalizeResult}
    (consistent : Consistent env ct) (found : ct.conns i = some cn) (unsettled : cn.finalizeResult = none)
    (arrives : ∀ b ref, ref ∈ bs b → ref ∈ ct.buckets b ∨ ref = ⟨i, true⟩ ∧
      b = env.bucket cn.reply ∧ result = .success ∧ ct.connForTID env cn.reply = none)
    (stays : ∀ b ref, ref ∈ ct.buckets b → ref.conn ≠ i → ref ∈ bs b) (nodup : ∀ b, (bs b).Nodup)
    (original : result = .success → ∃ b, ⟨i, false⟩ ∈ bs b)
    (reply : result = .success → cn.original ≠ cn.reply → ∃ b, ⟨i, true⟩ ∈ bs b) :
    Consistent env (setConn { ct with buckets := bs } i { cn with finalizeResult := some result }) := by
  have faithful := consistent.faithful i cn found
  refine consistent.put (Nat.le_refl _) (consistent.exists_below found) (consistent.past i cn found)
    ⟨faithful.source, faithful.destination, faithful.protocols⟩
    (fun b ref other => ⟨fun member => ?_, fun member => stays b ref member other⟩) nodup
    (fun b side member => ?_) (fun b member => ?_) (fun settled differ => ?_)
    (fun settled _ => original (Option.some.inj settled))
  · rcases arrives b ref member with old | ⟨rfl, -⟩
    · exact old
    · exact absurd rfl other
  · rcases arrives b _ member with old | ⟨new, here, -, missing⟩
    · exact .inl ⟨cn, old, found, by cases side <;> rfl, fun lives => lives⟩
    · cases new
      exact .inr ⟨here.symm, missing⟩
  · rcases arrives b _ member with old | ⟨-, -, success, -⟩
    · have success := consistent.inserted b _ old rfl cn found
      rw [unsettled] at success
      cases success
    · exact congrArg some success
  · exact iff_of_true (original (Option.some.inj settled)) (reply (Option.some.inj settled) differ)

end Adding

end BVisor.ConnTrack
