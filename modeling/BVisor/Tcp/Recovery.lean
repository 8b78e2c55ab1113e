import BVisor.Tcp.Transmission

/-! The loops of a sender, over new data and over data that was lost. Each of them keeps the queue, and
none of them sends what waits before its turn. -/

namespace BVisor.Tcp

open Data Seqnum
open List hiding after

variable {tree : OrderedTree SACKBlock} {base : Seqnum} {stream : List (Option Byte)}
  {una nxt index limit : Nat} {seg : OutgoingSegment}
  {sent rest before later : List OutgoingSegment} {s : Sender tree}

/-- What the sender knows of the places in its list. In a recovery there is unacknowledged data up to
`last`; the probe timer runs only over unacknowledged data; and a stream that is held was not sent. -/
structure Ready (base : Seqnum) (una nxt : Nat) (sent rest : List OutgoingSegment) (writeNext : Nat)
    (fastRecovery : FastRecovery) (probeTimer hold : Bool) : Prop where
  recovering : fastRecovery.active = true →
    ∃ last, fastRecovery.last = after base last ∧ una ≤ last ∧ last < nxt
  probing : probeTimer = true → una < nxt
  inside : writeNext ≤ sent.length + rest.length
  placed : hold = false → Placed sent rest writeNext
  held : hold = true → nxt = 0

namespace Sender

def ReadyAt (s : Sender tree) (base : Seqnum) (una nxt : Nat) (sent rest : List OutgoingSegment) : Prop :=
  Ready base una nxt sent rest s.writeNext s.fastRecovery s.probeTimer s.egressL7Hold

def Sound (s : Sender tree) (base : Seqnum) (stream : List (Option Byte)) (una : Nat) : Prop :=
  ∃ nxt sent rest, s.Laid base stream una nxt sent rest ∧ s.ReadyAt base una nxt sent rest ∧ s.Sized

variable {writeNext : Nat}

theorem placed_inside (placed : Placed sent rest writeNext) :
    writeNext ≤ sent.length + rest.length := by
  rcases placed with inSent | ⟨atEnd, _⟩
  · omega
  · omega

theorem sound_at (laid : s.Laid base stream una nxt sent rest)
    (ready : s.ReadyAt base una nxt sent rest) (sized : s.Sized)
    (placed : Placed sent rest writeNext) : { s with writeNext }.Sound base stream una :=
  ⟨nxt, sent, rest, laid, ⟨ready.recovering, ready.probing, placed_inside placed, fun _ => placed,
    ready.held⟩, sized⟩

theorem After.sound {s' : Sender tree} {isSent : Bool} (after : s.After base stream una nxt index s' isSent)
    (ready : s.ReadyAt base una nxt sent rest) (sized : s.Sized) (flows : s.egressL7Hold = false) :
    s'.Sound base stream una ∧ (isSent = true → { s' with writeNext := index + 1 }.Sound base stream una) := by
  obtain ⟨nxt', sent', rest', further, laid, placed, reached⟩ := after.laid
  have sized' := after.frame.sized sized
  have ready' : s'.ReadyAt base una nxt' sent' rest' := by
    refine ⟨?_, ?_, placed_inside placed, fun _ => placed, ?_⟩
    · intro active
      rw [after.frame.fastRecovery] at active ⊢
      obtain ⟨last, number, low, high⟩ := ready.recovering active
      exact ⟨last, number, low, Nat.lt_of_lt_of_le high further⟩
    · intro probeTimer
      rw [after.frame.probeTimer] at probeTimer
      exact Nat.lt_of_lt_of_le (ready.probing probeTimer) further
    · intro hold
      rw [after.frame.hold, flows] at hold
      cases hold
  exact ⟨⟨nxt', sent', rest', laid, ready', sized'⟩, fun isSent => sound_at laid ready' sized' (.inl (reached isSent))⟩

theorem ReadyAt.flows (ready : s.ReadyAt base una nxt sent rest) (ahead : una < nxt) : s.egressL7Hold = false :=
  Bool.eq_false_iff.mpr fun hold => by
    have start := ready.held hold
    omega

theorem ReadyAt.ahead (ready : s.ReadyAt base una nxt sent rest)
    (active : s.fastRecovery.active = true) : una < nxt := by
  obtain ⟨last, _, low, high⟩ := ready.recovering active
  exact Nat.lt_of_le_of_lt low high

namespace Laid

/-! Which segments were sent. -/

section

variable (laid : s.Laid base stream una nxt sent rest)
include laid

section

variable (found : s.writeList[index]? = some seg)
include found

theorem getElem_rest (outside : sent.length ≤ index) : rest[index - sent.length]? = some seg := by
  rw [laid.list, List.getElem?_append_right outside] at found
  exact found

theorem lt_of_xmitCount (transmitted : seg.xmitCount ≠ 0) : index < sent.length := by
  apply Nat.lt_of_not_le
  intro outside
  have member := mem_of_getElem? (laid.getElem_rest found outside)
  exact transmitted (laid.queue.waiting.xmitCount seg member)

theorem lt_of_number (assigned : seg.isAssignedSequenceNumber = true)
    (other : seg.sequenceNumber ≠ s.space.sndNxt) : index < sent.length := by
  apply Nat.lt_of_not_le
  intro outside
  have waits := laid.getElem_rest found outside
  have waiting := laid.queue.waiting
  cases rest with
  | nil => cases waits
  | cons first others =>
    cases position : index - sent.length with
    | zero =>
      rw [position] at waits
      cases waits
      exact other (by rw [(waiting.1.numbered assigned).number, laid.sndNxt])
    | succ position' =>
      rw [position] at waits
      have fresh := waiting.2 seg (mem_of_getElem? waits)
      rw [fresh.2] at assigned
      cases assigned

end

end

theorem isSACKED_new (lawful : tree.Lawful sackBlockLess)
    (laid : s.Laid base stream una nxt sent (seg :: rest)) (numbered : seg.NumberedAt base nxt)
    (data : seg.payload ≠ []) : s.isSACKED seg = false := by
  have near := laid.near
  have ahead := laid.queue.sent.le
  have short := laid.queue.holds_first.short seg (by simp)
  have most : maxQueued = 2 ^ 30 := rfl
  have positive := length_pos_iff.mpr data
  have lo : seg.sackBlock.lo s.space.sndUna = nxt - una := by
    show offset s.space.sndUna seg.sequenceNumber = _
    rw [laid.sndUna, numbered.number]
    exact size_after ahead (by omega)
  have hi : seg.sackBlock.hi s.space.sndUna = nxt + seg.payload.length - una := by
    show offset s.space.sndUna (seg.sequenceNumber + BitVec.ofNat 32 seg.logicalLen) = _
    unfold OutgoingSegment.logicalLen
    rw [laid.sndUna, numbered.number, numbered.noFin, after_add]
    exact size_after (by omega) (by simp; omega)
  rw [Bool.eq_false_iff]
  intro sacked
  obtain ⟨block, member, _, covers⟩ := (isSACKED_iff lawful laid.spaceOK.within (by omega) (by omega)).mp sacked
  have bounded := laid.spaceOK.within.bounded block member
  rw [laid.flight] at bounded
  omega

end Laid

/-! New data. -/

theorem nextSeg_front (laid : s.Laid base stream una nxt sent rest) (placed : Placed sent rest s.writeNext)
    (found : s.nextSeg? = some seg) : s.writeNext ≤ sent.length := by
  have inside : s.writeNext < sent.length + rest.length := by
    rw [← length_append, ← laid.list]
    exact (List.getElem?_eq_some_iff.mp found).1
  rcases placed with inSent | ⟨atEnd, _⟩ <;> omega

theorem skip_placed (lawful : tree.Lawful sackBlockLess)
    (laid : s.Laid base stream una nxt sent rest) (placed : Placed sent rest s.writeNext)
    (found : s.nextSeg? = some seg) (assigned : seg.isAssignedSequenceNumber = true)
    (sacked : s.isSACKED seg = true) : Placed sent rest (s.writeNext + 1) := by
  rcases Nat.lt_or_eq_of_le (nextSeg_front laid placed found) with inSent | here
  · exact .inl inSent
  have waits := laid.getElem_rest found (Nat.le_of_eq here.symm)
  rw [here, Nat.sub_self] at waits
  cases rest with
  | nil => cases waits
  | cons first others =>
    cases waits
    have numbered := laid.queue.waiting.1.numbered assigned
    by_cases empty : seg.payload = []
    · obtain rfl := laid.queue.rest_of_end empty
      refine .inr ⟨by rw [here]; rfl, ?_⟩
      intro member inRest
      obtain rfl := mem_singleton.mp inRest
      exact empty
    · rw [laid.isSACKED_new lawful numbered empty] at sacked
      cases sacked

theorem sendLoop_exists (lawful : tree.Lawful sackBlockLess) (sound : s.Sound base stream una)
    (flows : s.egressL7Hold = false) (positive : 0 < limit) (few : limit < maxQueued) (fuel : Nat)
    (congestion : Congestion) :
    ∃ s', sendLoop s.space.windowEnd fuel congestion limit s = .ok s' ∧
      s'.Sound base stream una ∧ s'.egressL7Hold = false := by
  induction fuel generalizing s limit congestion with
  | zero => exact ⟨s, rfl, sound, flows⟩
  | succ fuel ih =>
    obtain ⟨nxt, sent, rest, laid, ready, sized⟩ := sound
    have placed := ready.placed flows
    unfold sendLoop
    cases found : s.nextSeg? with
    | none => exact ⟨s, rfl, ⟨nxt, sent, rest, laid, ready, sized⟩, flows⟩
    | some seg =>
      dsimp only
      by_cases full : congestion.room = 0
      · rw [if_pos full]
        exact ⟨s, rfl, ⟨nxt, sent, rest, laid, ready, sized⟩, flows⟩
      rw [if_neg full]
      generalize limits : min limit (congestion.room * s.maxPayloadSize) = limit'
      have positive' : 0 < limit' := by
        have payload := Nat.mul_pos (Nat.pos_of_ne_zero full) sized.hasPayload
        omega
      have few' : limit' < maxQueued := by omega
      by_cases skips : (seg.isAssignedSequenceNumber && s.space.sackPermitted && s.isSACKED seg) = true
      · rw [if_pos skips]
        simp only [Bool.and_eq_true] at skips
        have placed' := skip_placed lawful laid placed found skips.1.1 skips.2
        exact ih (sound_at laid ready sized placed') flows positive' few' congestion
      rw [if_neg skips]
      obtain ⟨s', isSent, sends, after⟩ := laid.maybeSendSegment_exists placed sized
        (nextSeg_front laid placed found) positive' few' congestion.outstanding
      obtain ⟨sound', moved⟩ := after.sound ready sized flows
      have flows' : s'.egressL7Hold = false := after.frame.hold.trans flows
      rw [sends]
      cases isSent with
      | false => exact ⟨s', rfl, sound', flows'⟩
      | true =>
        have moved := moved rfl
        rw [← after.writeNext (Nat.le_refl _)] at moved
        rw [← after.frame.windowEnd]
        exact ih moved flows' positive' few' _

section

variable (sound : s.Sound base stream una)
include sound

/-- Whether timers are armed after sending depends on what is unacknowledged. -/
theorem postXmit_sound (shouldScheduleProbe calm : Bool) :
    (s.postXmit shouldScheduleProbe calm).Sound base stream una := by
  obtain ⟨nxt, sent, rest, laid, ready, sized⟩ := sound
  refine ⟨nxt, sent, rest, laid, ⟨ready.recovering, ?_, ready.inside, ready.placed, ready.held⟩, sized⟩
  intro armed
  have armed' : (s.probeTimer || s.space.sndUna != s.space.sndNxt && shouldScheduleProbe &&
      s.shouldSchedulePTO calm) = true := armed
  simp only [Bool.or_eq_true, Bool.and_eq_true, bne_iff_ne] at armed'
  rcases armed' with armed | ⟨⟨open_, _⟩, _⟩
  · exact ready.probing armed
  · apply Nat.lt_of_le_of_ne laid.queue.sent.le
    rintro rfl
    exact open_ (by rw [laid.sndUna, laid.sndNxt])

omit sound in
theorem sendData_exists (lawful : tree.Lawful sackBlockLess) (sound : s.Sound base stream una)
    (congestion : Congestion) (calm : Bool) :
    ∃ s', s.sendData congestion calm = .ok s' ∧ s'.Sound base stream una ∧
      s'.egressL7Hold = s.egressL7Hold := by
  unfold sendData
  by_cases hold : s.egressL7Hold = true
  · rw [if_pos hold]
    exact ⟨s, rfl, sound, rfl⟩
  rw [if_neg hold]
  have flows := Bool.eq_false_iff.mpr hold
  have sized : s.Sized := by
    obtain ⟨_, _, _, _, _, sized⟩ := sound
    exact sized
  have most : maxQueued = 2 ^ 30 := rfl
  have bounds : 0 < (if s.gso then s.gsoLimit else s.maxPayloadSize) ∧
      (if s.gso then s.gsoLimit else s.maxPayloadSize) < maxQueued := by
    have hasGsoLimit := sized.hasGsoLimit
    have smallGsoLimit := sized.smallGsoLimit
    have hasPayload := sized.hasPayload
    have smallPayload := sized.smallPayload
    split <;> omega
  obtain ⟨s', sends, sound', flows'⟩ := sendLoop_exists lawful sound flows bounds.1 bounds.2
    (s.writeList.length + congestion.room + 1) congestion
  dsimp only
  rw [sends]
  exact ⟨_, rfl, postXmit_sound sound' true calm, flows'.trans flows.symm⟩

/-! Lost data. -/

omit sound in
theorem sendSegment_fastRecovery (fastRecovery : FastRecovery) :
    { s with fastRecovery }.sendSegment index = { s.sendSegment index with fastRecovery } := by
  unfold sendSegment
  dsimp only
  split
  · rfl
  · rfl

omit sound in
theorem splitSeg_fastRecovery (size : Nat) :
    (s.splitSeg index size).fastRecovery = s.fastRecovery := by
  unfold splitSeg
  split
  · rfl
  · split
    · rfl
    · rfl

theorem sound_recovery {fastRecovery : FastRecovery} (active : fastRecovery.active = s.fastRecovery.active)
    (last : fastRecovery.last = s.fastRecovery.last) :
    { s with fastRecovery }.Sound base stream una := by
  obtain ⟨nxt, sent, rest, laid, ready, sized⟩ := sound
  refine ⟨nxt, sent, rest, laid, ⟨?_, ready.probing, ready.inside, ready.placed, ready.held⟩, sized⟩
  show fastRecovery.active = true → ∃ position, fastRecovery.last = after base position ∧ _
  rw [active, last]
  exact ready.recovering

section

variable (active : s.fastRecovery.active = true)
include active

theorem resendSegment_sound :
    s.resendSegment.Sound base stream una ∧ s.resendSegment.fastRecovery.active = true ∧
      s.resendSegment.egressL7Hold = s.egressL7Hold := by
  obtain ⟨nxt, sent, rest, laid, ready, sized⟩ := sound
  have ahead := ready.ahead active
  have flows := ready.flows ahead
  cases sent with
  | nil => exact absurd rfl (laid.queue.sent.nonempty ahead)
  | cons seg later =>
    have front : s.front? = some seg := by
      unfold front?
      rw [laid.list]
      rfl
    have laid' : s.Laid base stream una nxt ([] ++ seg :: later) rest := laid
    have after := laid'.splitAndResend (ready.placed flows) sized.hasPayload
    have recovers := after.frame.fastRecovery
    unfold resendSegment
    rw [front]
    dsimp only
    rw [sendSegment_fastRecovery, splitSeg_fastRecovery]
    have sameActive := congrArg FastRecovery.active recovers
    have sameLast := congrArg FastRecovery.last recovers
    exact ⟨sound_recovery (after.sound ready sized flows).1 sameActive.symm sameLast.symm, active, after.frame.hold⟩

omit active in
theorem setSegment_sound (found : s.writeList[index]? = some seg) (transmitted : seg.xmitCount ≠ 0) :
    (s.setSegment index { seg with lost := false }).Sound base stream una := by
  obtain ⟨nxt, sent, rest, laid, ready, sized⟩ := sound
  have inSent := laid.lt_of_xmitCount found transmitted
  obtain ⟨before, seg', later, rfl, rfl⟩ := Laid.sent_around inSent
  have same : seg' = seg := Option.some.inj ((segment_around laid.list_around).symm.trans found)
  subst same
  rw [setSegment_around laid.list_around]
  refine ⟨nxt, before ++ { seg' with lost := false } :: later, rest, ⟨?_, ?_, laid.sndUna, laid.sndNxt,
    laid.close, laid.spaceOK, laid.finSent, laid.emitted⟩, ?_, sized⟩
  · rw [append_assoc]
    rfl
  · exact laid.queue.replace rfl rfl rfl rfl transmitted
  · refine ⟨ready.recovering, ready.probing, ?_, fun flows => ?_, ready.held⟩
    · have inside := ready.inside
      simp only [length_append, length_cons] at inside ⊢
      exact inside
    · have placed := ready.placed flows
      unfold Placed at placed ⊢
      simp only [length_append, length_cons] at placed ⊢
      exact placed

theorem rackLoop_exists (fuel : Nat) (congestion : Congestion) (index : Nat) :
    ∃ s', rackLoop fuel congestion index s = .ok s' ∧ s'.Sound base stream una ∧
      s'.egressL7Hold = s.egressL7Hold := by
  induction fuel generalizing s congestion index with
  | zero => exact ⟨s, rfl, sound, rfl⟩
  | succ fuel ih =>
    unfold rackLoop
    cases found : s.writeList[index]? with
    | none => exact ⟨s, rfl, sound, rfl⟩
    | some seg =>
      dsimp only
      split
      · exact ⟨s, rfl, sound, rfl⟩
      rename_i goes
      have transmitted : seg.xmitCount ≠ 0 := by
        intro unsent
        simp [unsent] at goes
      split
      · exact ih sound active congestion (index + 1)
      split
      · exact ih (setSegment_sound sound found transmitted) active congestion (index + 1)
      split
      · exact ⟨s, rfl, sound, rfl⟩
      obtain ⟨nxt, sent, rest, laid, ready, sized⟩ := sound
      have flows := ready.flows (ready.ahead active)
      have inSent := laid.lt_of_xmitCount found transmitted
      have few : s.smss < maxQueued := Nat.lt_of_lt_of_le s.space.scoreboard.smss.isLt (by decide)
      obtain ⟨s', isSent, sends, after⟩ := laid.maybeSendSegment_exists
        (ready.placed flows) sized (Nat.le_of_lt inSent) sized.hasSmss few
        congestion.outstanding
      obtain ⟨sound', -⟩ := after.sound ready sized flows
      have active' : s'.fastRecovery.active = true := by
        rw [after.frame.fastRecovery, active]
      rw [sends]
      cases isSent with
      | false => exact ⟨s', rfl, sound', after.frame.hold⟩
      | true =>
        dsimp only
        generalize congestion.outstanding + _ = outstanding
        obtain ⟨s'', loops, sound'', hold''⟩ :=
          ih sound' active' { congestion with outstanding } (index + 1)
        exact ⟨s'', loops, sound'', hold''.trans after.frame.hold⟩

theorem fastRetransmit_sound (fastRetransmit : Bool) :
    ∃ s₁, (if fastRetransmit then s.resendSegment else s) = s₁ ∧
      s₁.Sound base stream una ∧ s₁.fastRecovery.active = true ∧
      s₁.egressL7Hold = s.egressL7Hold := by
  cases fastRetransmit with
  | false => exact ⟨s, rfl, sound, active, rfl⟩
  | true => exact ⟨_, rfl, resendSegment_sound sound active⟩

theorem rackDoRecovery_exists (fastRetransmit : Bool) (congestion : Congestion) (calm : Bool) :
    ∃ s', s.rackDoRecovery fastRetransmit congestion calm = .ok s' ∧ s'.Sound base stream una ∧
      s'.egressL7Hold = s.egressL7Hold := by
  obtain ⟨s₁, same, sound₁, active₁, hold₁⟩ := fastRetransmit_sound sound active fastRetransmit
  obtain ⟨s₂, loops, sound₂, hold₂⟩ := rackLoop_exists sound₁ active₁
    (s₁.writeList.length + congestion.room + 1) congestion 0
  unfold rackDoRecovery
  rw [same]
  dsimp only
  rw [loops]
  exact ⟨_, rfl, postXmit_sound sound₂ true calm, hold₂.trans hold₁⟩

end

end

/-! Recovery by selective acknowledgements. -/

theorem ReadyAt.congr {sent' : List OutgoingSegment} (ready : s.ReadyAt base una nxt sent rest)
    (same : sent'.length = sent.length) : s.ReadyAt base una nxt sent' rest := by
  refine ⟨ready.recovering, ready.probing, ?_, fun flows => ?_, ready.held⟩
  · rw [same]
    exact ready.inside
  · have placed := ready.placed flows
    unfold Placed at placed ⊢
    rw [same]
    exact placed

section

variable (laid : s.Laid base stream una nxt sent rest) (ready : s.ReadyAt base una nxt sent rest)
  (sized : s.Sized)
include laid ready sized

theorem sendSegment_sound (inside : index < sent.length) :
    (s.sendSegment index).Sound base stream una ∧ s.Frame (s.sendSegment index) := by
  obtain ⟨before, seg, later, rfl, rfl⟩ := Laid.sent_around inside
  have resent := laid.resend
  have ready' : s.ReadyAt base una nxt (before ++ transmitted seg :: later) rest := ready.congr (by simp)
  rw [sendSegment_around laid.list_around] at resent ⊢
  exact ⟨⟨nxt, _, rest, resent, ready', sized⟩, ⟨rfl, rfl, rfl, rfl, rfl, rfl, rfl⟩⟩

theorem splitSeg_exists {size : Nat} (flows : s.egressL7Hold = false)
    (inside : index < sent.length) (positive : 0 < size) :
    ∃ sent', (s.splitSeg index size).Laid base stream una nxt sent' rest ∧
      (s.splitSeg index size).ReadyAt base una nxt sent' rest ∧ (s.splitSeg index size).Sized ∧
      sent.length ≤ sent'.length ∧ s.Frame (s.splitSeg index size) := by
  obtain ⟨before, seg, later, rfl, rfl⟩ := Laid.sent_around inside
  by_cases long : size < seg.payload.length
  · have cut := laid.split positive long
    rw [splitSeg_around laid.list_around long] at cut ⊢
    have placed : Placed
        (before ++ firstPart s.maxPayloadSize size seg :: secondPart size seg :: later) rest _ :=
      Laid.placed_split (ready.placed flows)
    exact ⟨_, cut, ⟨ready.recovering, ready.probing, placed_inside placed, fun _ => placed,
      ready.held⟩, sized, by simp, ⟨rfl, rfl, rfl, rfl, rfl, rfl, rfl⟩⟩
  · rw [splitSeg_short laid.list_around (Nat.le_of_not_lt long)]
    exact ⟨_, laid, ready, sized, Nat.le_refl _, Frame.refl s⟩

end

/-- What the first loop of `NextSeg` remembers are segments before `bound`. -/
structure Scan.Below (scan : Scan) (bound : Nat) : Prop where
  s3 : ∀ position, scan.s3 = some position → position < bound
  s4 : ∀ position number, scan.s4 = some (position, number) → position < bound

variable {scan : Scan}

theorem Scan.Below.mono {bound bound' : Nat} (below : scan.Below bound)
    (more : bound ≤ bound') : scan.Below bound' :=
  ⟨fun position found => Nat.lt_of_lt_of_le (below.s3 position found) more,
    fun position number found => Nat.lt_of_lt_of_le (below.s4 position number found) more⟩

theorem scanSegment_below {bound : Nat} {segSeq : Seqnum} (below : scan.Below bound)
    (inside : index < bound) : (s.scanSegment index segSeq scan).1.Below bound := by
  have withS4 : ∀ other : Scan, other.Below bound →
      { other with s4 := some (index, segSeq) }.Below bound := by
    intro other low
    refine ⟨low.s3, ?_⟩
    intro position number found
    cases found
    exact inside
  have noted : ∀ candidate : Bool, (if candidate && scan.s3.isNone then
      { scan with s3 := some index, hint := some (index + 1) } else scan).Below bound := by
    intro candidate
    split
    · refine ⟨?_, below.s4⟩
      intro position found
      cases found
      exact inside
    · exact below
  unfold scanSegment
  split
  · exact below
  dsimp only
  generalize (lessThan s.fastRecovery.highRxt segSeq && _) = candidate
  have noted := noted candidate
  generalize (if candidate && scan.s3.isNone then _ else scan) = scan' at noted ⊢
  split
  · exact below
  split
  · split
    · exact withS4 _ noted
    · split
      · exact withS4 _ noted
      · exact noted
  · exact noted

/-- What `NextSeg` leaves as it is: it cuts segments that were sent. -/
structure Scanned (s : Sender tree) (base : Seqnum) (stream : List (Option Byte)) (una nxt : Nat)
    (sent' rest : List OutgoingSegment) (s' : Sender tree) : Prop where
  laid : s'.Laid base stream una nxt sent' rest
  ready : s'.ReadyAt base una nxt sent' rest
  sized : s'.Sized
  frame : s.Frame s'

theorem ne_sndNxt_of_below {number sndNxt : Seqnum} (below : lessThanEq sndNxt number = false) :
    number ≠ sndNxt := by
  rintro rfl
  unfold lessThanEq at below
  rw [beq_self_eq_true, Bool.true_or] at below
  cases below

section

variable (laid : s.Laid base stream una nxt sent rest)
include laid

theorem nextSegLoop_exists
    (ready : s.ReadyAt base una nxt sent rest) (sized : s.Sized) (flows : s.egressL7Hold = false)
    (below : scan.Below sent.length) (fuel index : Nat) :
    ∃ s' sent', Scanned s base stream una nxt sent' rest s' ∧
      ((∃ position, nextSegLoop fuel index scan s = (s', .inl position) ∧
          position < sent'.length) ∨
        ∃ scan', nextSegLoop fuel index scan s = (s', .inr scan') ∧ scan'.Below sent'.length) := by
  induction fuel generalizing s sent scan index with
  | zero => exact ⟨s, sent, ⟨laid, ready, sized, Frame.refl s⟩, .inr ⟨scan, rfl, below⟩⟩
  | succ fuel ih =>
    unfold nextSegLoop
    cases found : s.writeList[index]? with
    | none => exact ⟨s, sent, ⟨laid, ready, sized, Frame.refl s⟩, .inr ⟨scan, rfl, below⟩⟩
    | some seg =>
      dsimp only
      by_cases ends : (!seg.isAssignedSequenceNumber || lessThanEq s.space.sndNxt seg.sequenceNumber) = true
      · rw [if_pos ends]
        exact ⟨s, sent, ⟨laid, ready, sized, Frame.refl s⟩, .inr ⟨_, rfl, ⟨below.s3, below.s4⟩⟩⟩
      · rw [if_neg ends]
        simp only [Bool.or_eq_true, Bool.not_eq_true', not_or, Bool.not_eq_false, Bool.not_eq_true] at ends
        have inSent := laid.lt_of_number found ends.1 (ne_sndNxt_of_below ends.2)
        obtain ⟨sent₁, laid₁, ready₁, sized₁, more, frame₁⟩ :=
          splitSeg_exists laid ready sized flows inSent sized.hasSmss
        have inSent₁ : index < sent₁.length := Nat.lt_of_lt_of_le inSent more
        have below₁ := @scanSegment_below _ index (s.splitSeg index s.smss) scan sent₁.length
          seg.sequenceNumber (below.mono more) inSent₁
        cases scans : (s.splitSeg index s.smss).scanSegment index seg.sequenceNumber scan with
        | mk scan₁ returns =>
          rw [scans] at below₁
          cases returns with
          | true =>
            exact ⟨_, sent₁, ⟨laid₁, ready₁, sized₁, frame₁⟩, .inl ⟨index, rfl, inSent₁⟩⟩
          | false =>
            obtain ⟨s', sent', scanned, result⟩ := ih laid₁ ready₁ sized₁
              (frame₁.hold.trans flows) below₁ (index + 1)
            exact ⟨s', sent', ⟨scanned.laid, scanned.ready, scanned.sized, frame₁.trans scanned.frame⟩, result⟩

theorem firstUnsent_le (placed : Placed sent rest s.writeNext) (found : s.firstUnsent? = some index) :
    index ≤ sent.length := by
  unfold firstUnsent? at found
  obtain ⟨step, first, same⟩ := Option.map_eq_some_iff.mp found
  obtain ⟨inside, _, earlier⟩ := List.findIdx?_eq_some_iff_getElem.mp first
  rw [length_drop, laid.list, length_append] at inside
  apply Nat.le_of_not_lt
  intro beyond
  have inFront : s.writeNext ≤ sent.length := by
    rcases placed with inSent | ⟨atEnd, _⟩ <;> omega
  -- The segment after those that were sent would have been found before.
  have inList : sent.length < s.writeList.length := by
    rw [laid.list, length_append]
    omega
  have passed := earlier (sent.length - s.writeNext) (by omega)
  simp only [getElem_drop, Nat.add_sub_of_le inFront, Bool.not_eq_true', Bool.not_eq_false,
    Bool.and_eq_true] at passed
  refine Nat.lt_irrefl _ (laid.lt_of_number (List.getElem?_eq_getElem inList) passed.1 ?_)
  intro same
  have below := passed.2
  rw [same, lessThan, BitVec.sub_self] at below
  cases below

theorem nextSeg_exists
    (ready : s.ReadyAt base una nxt sent rest) (sized : s.Sized) (flows : s.egressL7Hold = false)
    (hint : Option Nat) :
    ∃ s' sent' found hint' rescueRtx, s.nextSeg hint = (s', found, hint', rescueRtx) ∧
      Scanned s base stream una nxt sent' rest s' ∧
      ∀ position, found = some position → position ≤ sent'.length := by
  have empty : (Scan.mk none none none).Below sent.length :=
    ⟨fun _ found => (nomatch found), fun _ _ found => (nomatch found)⟩
  have scans : ∃ s₁ sent₁, Scanned s base stream una nxt sent₁ rest s₁ ∧
      ((∃ position, s.scanFrom hint = (s₁, .inl position) ∧ position < sent₁.length) ∨
        ∃ scan, s.scanFrom hint = (s₁, .inr scan) ∧ scan.Below sent₁.length) := by
    cases hint with
    | none => exact ⟨s, sent, ⟨laid, ready, sized, Frame.refl s⟩, .inr ⟨_, rfl, empty⟩⟩
    | some index => exact nextSegLoop_exists laid ready sized flows empty _ index
  obtain ⟨s₁, sent₁, scanned, result⟩ := scans
  unfold nextSeg
  rcases result with ⟨position, returns, inSent⟩ | ⟨scan, ends, below⟩
  · rw [returns]
    refine ⟨s₁, sent₁, _, _, _, rfl, scanned, ?_⟩
    rintro _ ⟨⟩
    exact Nat.le_of_lt inSent
  rw [ends]
  dsimp only
  cases unsent : s₁.firstUnsent? with
  | some index =>
    refine ⟨s₁, sent₁, _, _, _, rfl, scanned, ?_⟩
    rintro _ ⟨⟩
    have flows₁ := scanned.frame.hold.trans flows
    exact firstUnsent_le scanned.laid (scanned.ready.placed flows₁) unsent
  | none =>
    dsimp only
    cases lost : scan.s3 with
    | some index =>
      refine ⟨s₁, sent₁, _, _, _, rfl, scanned, ?_⟩
      rintro _ ⟨⟩
      exact Nat.le_of_lt (below.s3 index lost)
    | none =>
      refine ⟨s₁, sent₁, _, _, _, rfl, scanned, ?_⟩
      intro position found
      obtain ⟨⟨_, number⟩, rescue, rfl⟩ := Option.map_eq_some_iff.mp found
      exact Nat.le_of_lt (below.s4 _ number rescue)

end

section

variable (sound : s.Sound base stream una)
include sound

theorem sackLoop_exists (active : s.fastRecovery.active = true)
    (positive : 0 < limit) (few : limit < maxQueued) (room : Nat) (outstanding : Int) (hint : Option Nat) :
    ∃ s', sackLoop limit s.space.windowEnd room outstanding hint s = .ok s' ∧
      s'.Sound base stream una ∧ s'.egressL7Hold = s.egressL7Hold := by
  induction room generalizing s outstanding hint with
  | zero => exact ⟨s, rfl, sound, rfl⟩
  | succ room ih =>
    obtain ⟨nxt, sent, rest, laid, ready, sized⟩ := sound
    have flows := ready.flows (ready.ahead active)
    obtain ⟨s₁, sent₁, found, hint₁, rescueRtx, finds, scanned, inside⟩ :=
      nextSeg_exists laid ready sized flows hint
    have sound₁ : s₁.Sound base stream una := ⟨nxt, sent₁, rest, scanned.laid, scanned.ready, scanned.sized⟩
    have flows₁ : s₁.egressL7Hold = false := scanned.frame.hold.trans flows
    have active₁ : s₁.fastRecovery.active = true := by
      rw [scanned.frame.fastRecovery]
      exact active
    unfold sackLoop
    rw [finds]
    cases found with
    | none => exact ⟨s₁, rfl, sound₁, scanned.frame.hold⟩
    | some index =>
      dsimp only
      cases segment : s₁.writeList[index]? with
      | none => exact ⟨s₁, rfl, sound₁, scanned.frame.hold⟩
      | some seg =>
        dsimp only
        rw [← scanned.frame.windowEnd]
        by_cases isNew : (!seg.isAssignedSequenceNumber || lessThanEq s₁.space.sndNxt seg.sequenceNumber) = true
        · rw [if_pos isNew]
          obtain ⟨s₂, isSent, sends, after⟩ := scanned.laid.maybeSendSegment_exists
            (scanned.ready.placed flows₁) scanned.sized (inside index rfl) positive few
            outstanding
          obtain ⟨sound₂, moved⟩ := after.sound scanned.ready scanned.sized flows₁
          have hold₂ := after.frame.hold.trans scanned.frame.hold
          rw [sends]
          cases isSent with
          | false => exact ⟨s₂, rfl, sound₂, hold₂⟩
          | true =>
            have active₂ : s₂.fastRecovery.active = true := by
              rw [after.frame.fastRecovery]
              exact active₁
            dsimp only
            rw [← after.frame.windowEnd]
            obtain ⟨s₃, loops, sound₃, hold₃⟩ := ih (moved rfl) active₂ (outstanding + 1) hint₁
            exact ⟨s₃, loops, sound₃, hold₃.trans hold₂⟩
        · rw [if_neg isNew]
          simp only [Bool.or_eq_true, Bool.not_eq_true', not_or, Bool.not_eq_false, Bool.not_eq_true] at isNew
          have inSent := scanned.laid.lt_of_number segment isNew.1 (ne_sndNxt_of_below isNew.2)
          obtain ⟨sound₂, frame₂⟩ := sendSegment_sound scanned.laid scanned.ready scanned.sized inSent
          generalize recovery : (if rescueRtx = true then _ else _) = fastRecovery
          have same : fastRecovery.active = s₁.fastRecovery.active ∧
              fastRecovery.last = s₁.fastRecovery.last := by
            rw [← recovery]
            split
            · exact ⟨rfl, rfl⟩
            · exact ⟨rfl, rfl⟩
          have sound₃ : { s₁.sendSegment index with fastRecovery }.Sound base stream una :=
            sound_recovery sound₂ (by rw [frame₂.fastRecovery]; exact same.1)
              (by rw [frame₂.fastRecovery]; exact same.2)
          obtain ⟨s₄, loops, sound₄, hold₄⟩ := ih sound₃ (same.1.trans active₁) (outstanding + 1) hint₁
          rw [← frame₂.windowEnd]
          exact ⟨s₄, loops, sound₄, hold₄.trans (frame₂.hold.trans scanned.frame.hold)⟩

theorem sackDoRecovery_exists (active : s.fastRecovery.active = true) (ackNumber : Seqnum) (fastRetransmit : Bool)
    (congestion : Congestion) (calm : Bool) :
    ∃ s', s.sackDoRecovery ackNumber fastRetransmit congestion calm = .ok s' ∧
      s'.Sound base stream una ∧ s'.egressL7Hold = s.egressL7Hold := by
  obtain ⟨s₁, same, sound₁, active₁, hold₁⟩ := fastRetransmit_sound sound active fastRetransmit
  unfold sackDoRecovery
  rw [same]
  dsimp only
  split
  · exact ⟨s₁, rfl, sound₁, hold₁⟩
  have sized : s₁.Sized := by
    obtain ⟨_, _, _, _, _, sized⟩ := sound₁
    exact sized
  have hasPayload := sized.hasPayload
  have smallPayload := sized.smallPayload
  have hasSmss := sized.hasSmss
  have most : maxQueued = 2 ^ 30 := rfl
  obtain ⟨s₂, loops, sound₂, hold₂⟩ := @sackLoop_exists _ _ _ _ (min s₁.maxPayloadSize s₁.smss) _
    sound₁ active₁ (by omega) (by omega) congestion.room congestion.outstanding (some 0)
  rw [loops]
  exact ⟨_, rfl, postXmit_sound sound₂ true calm, hold₂.trans hold₁⟩

theorem renoDoRecovery_sound (active : s.fastRecovery.active = true) (ack : Ack) (fastRetransmit : Bool) :
    (s.renoDoRecovery ack fastRetransmit).Sound base stream una ∧
      (s.renoDoRecovery ack fastRetransmit).egressL7Hold = s.egressL7Hold := by
  unfold renoDoRecovery
  split
  · exact ⟨sound, rfl⟩
  split
  · exact ⟨sound, rfl⟩
  split
  · exact ⟨sound, rfl⟩
  have sound' : { s with
      fastRecovery := { s.fastRecovery with first := ack.ackNumber }
      dupAckCount := 0 }.Sound base stream una :=
    @sound_recovery _ _ _ _ _ sound { s.fastRecovery with first := ack.ackNumber } rfl rfl
  obtain ⟨resent, _, hold⟩ := resendSegment_sound sound' active
  exact ⟨resent, hold⟩

end

end Sender

end BVisor.Tcp
