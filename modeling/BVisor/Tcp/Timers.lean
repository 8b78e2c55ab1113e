import BVisor.Tcp.Acknowledging

/-! What the timers, a new segment size and new data do to a sender. -/

namespace BVisor.Tcp

open Data Seqnum
open List hiding after

variable {tree : OrderedTree SACKBlock} {base : Seqnum} {stream : List (Option Byte)}
  {una nxt index : Nat} {sent rest : List OutgoingSegment} {s : Sender tree}

namespace Sender

theorem sendZeroWindowProbe_sound (sound : s.Sound base stream una) :
    s.sendZeroWindowProbe.Sound base stream una ∧
      s.sendZeroWindowProbe.egressL7Hold = s.egressL7Hold := by
  unfold sendZeroWindowProbe
  split
  · exact ⟨sound, rfl⟩
  · obtain ⟨nxt, sent, rest, laid, ready, sized⟩ := sound
    exact ⟨⟨nxt, sent, rest, ⟨laid.list, laid.queue, laid.sndUna, laid.sndNxt, laid.close,
      laid.spaceOK, laid.finSent, .probe laid.emitted rfl⟩, ready, sized⟩, rfl⟩

theorem rewind_sound (lawful : tree.Lawful sackBlockLess) {fastRecovery : FastRecovery}
    {tlpRxtOut : Bool} {dupAckCount : Nat} (sound : s.Sound base stream una)
    (calm : fastRecovery.active = false) :
    { s with
      tlpRxtOut
      fastRecovery
      dupAckCount
      space := { s.space with scoreboard := s.space.scoreboard.reset }
      writeNext := 0 }.Sound base stream una := by
  obtain ⟨nxt, sent, rest, laid, ready, sized⟩ := sound
  have front : Placed sent rest 0 := .inl (Nat.zero_le _)
  refine ⟨nxt, sent, rest, ?_, ⟨?_, ready.probing, Nat.zero_le _, fun _ => front, ready.held⟩, sized⟩
  · exact laid.withSpace ⟨rfl, rfl, rfl, rfl⟩ (SendSpace.expunge_ok lawful laid.spaceOK)
  · intro active
    have active' : fastRecovery.active = true := active
    rw [calm] at active'
    cases active'

theorem retransmitTimerExpired_exists (lawful : tree.Lawful sackBlockLess)
    (sound : s.Sound base stream una) (timedOut : Bool) (congestion : Congestion) (calm : Bool) :
    ∃ s', s.retransmitTimerExpired timedOut congestion calm = .ok s' ∧ s'.Sound base stream una ∧
      s'.egressL7Hold = s.egressL7Hold := by
  unfold retransmitTimerExpired
  split
  · exact ⟨s, rfl, sound, rfl⟩
  dsimp only
  split
  · exact ⟨_, rfl, sound, rfl⟩
  have left : ∃ fastRecovery dupAckCount,
      (if s.fastRecovery.active then
        { s with
          tlpRxtOut := false
          fastRecovery := { s.fastRecovery with last := s.space.sndNxt - 1 } }.leaveRecovery
      else { s with
          tlpRxtOut := false
          fastRecovery := { s.fastRecovery with last := s.space.sndNxt - 1 } }) =
        { s with tlpRxtOut := false, fastRecovery, dupAckCount } ∧
      fastRecovery.active = false := by
    split
    · exact ⟨_, _, rfl, rfl⟩
    · rename_i calm
      exact ⟨_, _, rfl, Bool.eq_false_iff.mpr calm⟩
  obtain ⟨fastRecovery, dupAckCount, same, calm'⟩ := left
  rw [same]
  have sound' := @rewind_sound _ _ _ _ _ lawful fastRecovery false dupAckCount sound calm'
  dsimp only
  split
  · obtain ⟨probed, hold⟩ := sendZeroWindowProbe_sound sound'
    exact ⟨_, rfl, probed, hold⟩
  · split
    · exact ⟨_, rfl, sound', rfl⟩
    · exact sendData_exists lawful sound' congestion calm

theorem reorderTimerExpired_exists (sound : s.Sound base stream una) (elapsed : Nat → Bool)
    (congestion : Congestion) (calm : Bool) :
    ∃ s', s.reorderTimerExpired elapsed congestion calm = .ok s' ∧ s'.Sound base stream una ∧
      s'.egressL7Hold = s.egressL7Hold := by
  obtain ⟨sound₁, hold₁, ahead⟩ := rackDetectLoss_sound sound elapsed
  unfold reorderTimerExpired
  dsimp only
  split
  · exact ⟨_, rfl, sound₁, hold₁⟩
  rename_i lost
  split
  · rename_i active
    obtain ⟨s₂, recovers, sound₂, hold₂⟩ := rackDoRecovery_exists sound₁ active false congestion calm
    exact ⟨s₂, recovers, sound₂, hold₂.trans hold₁⟩
  · have entered := enterRecovery_sound sound₁ (ahead (Nat.pos_of_ne_zero lost))
    obtain ⟨s₂, recovers, sound₂, hold₂⟩ := rackDoRecovery_exists entered rfl true congestion calm
    exact ⟨s₂, recovers, sound₂, hold₂.trans hold₁⟩

/-! The probe timer. -/

theorem smss_lt : s.smss < maxQueued :=
  Nat.lt_of_lt_of_le s.space.scoreboard.smss.isLt (by decide)

variable {seg : OutgoingSegment} {payload : List Byte}

theorem probeNew_exists (sound : s.Sound base stream una) (flows : s.egressL7Hold = false)
    (congestion : Congestion) :
    ∃ s' isSent, s.probeNew congestion = .ok (s', isSent) ∧ s'.Sound base stream una ∧
      s'.egressL7Hold = false := by
  unfold probeNew
  cases found : s.nextSeg? with
  | none => exact ⟨s, false, rfl, sound, flows⟩
  | some seg =>
    dsimp only
    split
    · obtain ⟨nxt, sent, rest, laid, ready, sized⟩ := sound
      have placed := ready.placed flows
      obtain ⟨s', isSent, sends, after⟩ := laid.maybeSendSegment_exists placed sized
        (nextSeg_front laid placed found) sized.hasSmss smss_lt congestion.outstanding
      obtain ⟨sound', moved⟩ := after.sound ready sized flows
      have flows' := after.frame.hold.trans flows
      rw [sends]
      cases isSent with
      | false => exact ⟨s', false, rfl, sound', flows'⟩
      | true =>
        have moved := moved rfl
        rw [← after.writeNext (Nat.le_refl _)] at moved
        exact ⟨_, true, rfl, moved, flows'⟩
    · exact ⟨s, false, rfl, sound, flows⟩

theorem highestSeqXmit_lt (laid : s.Laid base stream una nxt sent rest)
    (found : s.highestSeqXmit? = some index) : index < sent.length := by
  have transmitted := laid.queue.sent.xmitCount
  have front : (s.writeList.takeWhile fun seg => seg.xmitCount ≠ 0) = sent := by
    rw [laid.list, takeWhile_append_of_pos]
    · cases rest with
      | nil => simp
      | cons seg others =>
        have unsent := laid.queue.waiting.1.unsent
        simp [unsent]
    · intro seg member
      exact decide_eq_true (transmitted seg member)
  unfold highestSeqXmit? at found
  rw [front] at found
  split at found
  · cases found
  · rename_i count length
    cases found
    omega

theorem probeLast_exists (sound : s.Sound base stream una) (flows : s.egressL7Hold = false)
    (congestion : Congestion) :
    ∃ s', s.probeLast congestion = .ok s' ∧ s'.Sound base stream una ∧
      s'.egressL7Hold = false := by
  unfold probeLast
  split
  · exact ⟨s, rfl, sound, flows⟩
  cases found : s.highestSeqXmit? with
  | none => exact ⟨s, rfl, sound, flows⟩
  | some index =>
    obtain ⟨nxt, sent, rest, laid, ready, sized⟩ := sound
    obtain ⟨s', isSent, sends, after⟩ := laid.maybeSendSegment_exists (ready.placed flows) sized
      (Nat.le_of_lt (highestSeqXmit_lt laid found)) sized.hasSmss smss_lt congestion.outstanding
    obtain ⟨sound', -⟩ := after.sound ready sized flows
    have flows' := after.frame.hold.trans flows
    dsimp only
    rw [sends]
    cases isSent with
    | false | true => exact ⟨_, rfl, sound', flows'⟩

theorem probeTimerExpired_exists (sound : s.Sound base stream una) (armed : s.probeTimer = true)
    (congestion : Congestion) :
    ∃ s', s.probeTimerExpired congestion = .ok s' ∧ s'.Sound base stream una ∧
      s'.egressL7Hold = s.egressL7Hold := by
  have flows : s.egressL7Hold = false := by
    obtain ⟨nxt, sent, rest, laid, ready, sized⟩ := sound
    exact ready.flows (ready.probing armed)
  have sound₁ : { s with probeTimer := false }.Sound base stream una := by
    obtain ⟨nxt, sent, rest, laid, ready, sized⟩ := sound
    exact ⟨nxt, sent, rest, laid, ⟨ready.recovering, fun armed => (nomatch armed), ready.inside,
      ready.placed, ready.held⟩, sized⟩
  obtain ⟨s₂, isSent, sends, sound₂, flows₂⟩ := probeNew_exists sound₁ flows congestion
  unfold probeTimerExpired
  rw [sends, flows]
  cases isSent with
  | true => exact ⟨_, rfl, postXmit_sound sound₂ false false, flows₂⟩
  | false =>
    obtain ⟨s₃, sends, sound₃, flows₃⟩ := probeLast_exists sound₂ flows₂ congestion
    dsimp only
    rw [sends]
    exact ⟨_, rfl, postXmit_sound sound₃ false false, flows₃⟩

/-! The cork timer. -/

/-- Where the cork timer may expire: `writeNext` is the first segment that was not sent. -/
def CorkReady (s : Sender tree) : Prop :=
  ∀ seg ∈ s.nextSeg?, seg.xmitCount = 0 ∧ ∀ other ∈ s.writeList.take s.writeNext, other.xmitCount ≠ 0

instance : DecidablePred (CorkReady : Sender tree → Prop) := fun s =>
  match found : s.nextSeg? with
  | none => isTrue (by
      unfold CorkReady
      rw [found]
      exact fun _ member => (nomatch member))
  | some seg =>
    decidable_of_iff
      (seg.xmitCount = 0 ∧ ∀ other ∈ s.writeList.take s.writeNext, other.xmitCount ≠ 0) (by
        unfold CorkReady
        rw [found]
        constructor
        · rintro fresh _ ⟨⟩
          exact fresh
        · exact fun fresh => fresh seg rfl)

theorem corkReady_front (laid : s.Laid base stream una nxt sent rest) (corkReady : s.CorkReady)
    (found : s.nextSeg? = some seg) :
    s.writeNext = sent.length ∧ ∃ others, rest = seg :: others := by
  obtain ⟨unsent, before⟩ := corkReady seg found
  have notBefore : sent.length ≤ s.writeNext := by
    apply Nat.le_of_not_lt
    intro inSent
    obtain ⟨front, seg', later, rfl, length⟩ := Laid.sent_around inSent
    have here : s.nextSeg? = some seg' := by
      unfold nextSeg?
      rw [← length]
      exact segment_around laid.list_around
    rw [found] at here
    cases here
    exact laid.queue.sent.xmitCount seg (by simp) unsent
  have waits := laid.getElem_rest found notBefore
  cases rest with
  | nil => cases waits
  | cons first others =>
    have here : s.writeNext = sent.length := by
      apply Nat.le_antisymm _ notBefore
      apply Nat.le_of_not_lt
      intro beyond
      refine before first ?_ laid.queue.waiting.1.unsent
      rw [laid.list, take_append, take_of_length_le (Nat.le_of_lt beyond)]
      apply mem_append_right
      rw [show s.writeNext - sent.length = s.writeNext - sent.length - 1 + 1 by omega,
        take_succ_cons]
      exact mem_cons_self
    rw [here, Nat.sub_self] at waits
    cases waits
    exact ⟨here, others, rfl⟩

theorem assign_sound (sound : s.Sound base stream una) (corkReady : s.CorkReady) (found : s.nextSeg? = some seg) :
    (s.assign s.writeNext).Sound base stream una ∧
      (s.assign s.writeNext).egressL7Hold = s.egressL7Hold := by
  obtain ⟨nxt, sent, rest, laid, ready, sized⟩ := sound
  obtain ⟨here, others, rfl⟩ := corkReady_front laid corkReady found
  obtain ⟨assigns, laid', _⟩ := laid.assign
  rw [here]
  rw [assigns] at laid' ⊢
  exact ⟨⟨nxt, sent, _, laid', ⟨ready.recovering, ready.probing, ready.inside,
    fun _ => .inl (Nat.le_of_eq here), ready.held⟩, sized⟩, rfl⟩

theorem corkTimerExpired_exists (lawful : tree.Lawful sackBlockLess)
    (sound : s.Sound base stream una) (corkReady : s.CorkReady) (congestion : Congestion) (calm : Bool) :
    ∃ s', s.corkTimerExpired congestion calm = .ok s' ∧ s'.Sound base stream una ∧
      s'.egressL7Hold = s.egressL7Hold := by
  have sound₁ : { s with corkTimer := false }.Sound base stream una := sound
  have corkReady₁ : { s with corkTimer := false }.CorkReady := corkReady
  have hold₁ : { s with corkTimer := false }.egressL7Hold = s.egressL7Hold := rfl
  unfold corkTimerExpired
  generalize { s with corkTimer := false } = s₁ at sound₁ corkReady₁ hold₁ ⊢
  dsimp only
  cases found : s₁.nextSeg? with
  | none => exact ⟨_, rfl, sound₁, hold₁⟩
  | some seg =>
    obtain ⟨sound₂, hold₂⟩ := assign_sound sound₁ corkReady₁ found
    obtain ⟨s₃, sends, sound₃, hold₃⟩ := sendData_exists lawful sound₂ congestion calm
    exact ⟨s₃, sends, sound₃, hold₃.trans (hold₂.trans hold₁)⟩

/-! The size of segments. -/

theorem rewindTo_le (m : Nat) : s.rewindTo m ≤ s.writeNext := by
  unfold rewindTo
  cases found : (s.writeList.take s.writeNext).findIdx? fun seg => seg.payload.length > m with
  | none => exact Nat.le_refl _
  | some position =>
    obtain ⟨inside, _⟩ := List.findIdx?_eq_some_iff_getElem.mp found
    rw [length_take] at inside
    show position ≤ s.writeNext
    omega

theorem rewindTo_placed (laid : s.Laid base stream una nxt sent rest)
    (placed : Placed sent rest s.writeNext) (m : Nat) : Placed sent rest (s.rewindTo m) := by
  have le := @rewindTo_le _ s m
  rcases placed with inSent | ⟨atEnd, ended⟩
  · exact .inl (Nat.le_trans le inSent)
  unfold rewindTo at le ⊢
  cases found : (s.writeList.take s.writeNext).findIdx? fun seg => seg.payload.length > m with
  | none => exact .inr ⟨atEnd, ended⟩
  | some position =>
    obtain ⟨inside, long, _⟩ := List.findIdx?_eq_some_iff_getElem.mp found
    left
    show position ≤ sent.length
    apply Nat.le_of_not_lt
    intro beyond
    simp only [getElem_take, decide_eq_true_eq] at long
    have inList : position < s.writeList.length := by
      rw [length_take] at inside
      omega
    have waits := laid.getElem_rest (List.getElem?_eq_getElem inList) (Nat.le_of_lt beyond)
    rw [ended _ (mem_of_getElem? waits)] at long
    exact Nat.not_lt_zero _ long

theorem sized_smaller {room : Int} (sized : s.Sized) (smaller : ¬room ≥ s.maxPayloadSize) :
    0 < max 1 room.toNat ∧ max 1 room.toNat < 2 ^ 16 := by
  have hasPayload := sized.hasPayload
  have smallPayload := sized.smallPayload
  omega

theorem updateMaxPayloadSize_exists (lawful : tree.Lawful sackBlockLess)
    (sound : s.Sound base stream una) (room : Int) (count : Nat) (congestion : Congestion) (calm : Bool) :
    ∃ s', s.updateMaxPayloadSize room count congestion calm = .ok s' ∧ s'.Sound base stream una ∧
      s'.egressL7Hold = s.egressL7Hold := by
  unfold updateMaxPayloadSize
  by_cases larger : room ≥ s.maxPayloadSize
  · rw [if_pos larger]
    exact ⟨s, rfl, sound, rfl⟩
  rw [if_neg larger]
  obtain ⟨nxt, sent, rest, laid, ready, sized⟩ := sound
  obtain ⟨positive, small⟩ := sized_smaller sized larger
  generalize max 1 room.toNat = m at positive small ⊢
  dsimp only
  split
  · exact ⟨_, rfl, ⟨nxt, sent, rest, laid, ready, ⟨positive, small, sized.hasGsoLimit,
      sized.smallGsoLimit, sized.hasSmss⟩⟩, rfl⟩
  have within := laid.spaceOK.within
  have hasSmss : 0 < (BitVec.ofNat 16 m).toNat := by
    rw [BitVec.toNat_ofNat, Nat.mod_eq_of_lt small]
    exact positive
  have sound' : { s with
      maxPayloadSize := m
      space := { s.space with
        scoreboard := { s.space.scoreboard with smss := BitVec.ofNat 16 m } }
      writeNext := s.rewindTo m }.Sound base stream una := by
    refine ⟨nxt, sent, rest, ⟨laid.list, laid.queue, laid.sndUna, laid.sndNxt, laid.close,
      ⟨laid.spaceOK.window, laid.spaceOK.flight, ⟨within.near, within.apart, within.bounded,
        within.counted⟩⟩, laid.finSent, laid.emitted⟩, ⟨ready.recovering, ready.probing, ?_,
      fun flows => ?_, ready.held⟩, ⟨positive, small, sized.hasGsoLimit, sized.smallGsoLimit,
      hasSmss⟩⟩
    · exact Nat.le_trans (rewindTo_le m) ready.inside
    · exact rewindTo_placed laid (ready.placed flows) m
  exact sendData_exists lawful sound' congestion calm

/-! New data. -/

theorem emitted_append {wire : List Packet} {mark : Nat} (emitted : Emitted base stream wire mark)
    (more : List (Option Byte)) : Emitted base (stream ++ more) wire mark := by
  induction emitted with
  | start => exact .start
  | probe _ probes ih => exact .probe ih probes
  | packet _ carries reached number content ih =>
    refine .packet ih carries reached number ?_
    rw [drop_append]
    exact content.trans (prefix_append _ _)

theorem Laid.push (laid : s.Laid base stream una nxt sent rest) (more : none ∉ stream)
    (short : payload.length < maxQueued) :
    (s.pushBack payload).Laid base (stream ++ (newOutgoingSegment payload).units) una nxt sent
      (rest ++ [newOutgoingSegment payload]) := by
  refine ⟨?_, laid.queue.push more short ⟨rfl, rfl⟩, laid.sndUna, laid.sndNxt, laid.close,
    laid.spaceOK, ?_, emitted_append laid.emitted _⟩
  · show s.writeList ++ _ = _
    rw [laid.list, append_assoc]
  · intro finSent
    exact absurd (laid.finSent finSent).2 more

theorem ReadyAt.front (laid : s.Laid base stream una nxt sent rest)
    (ready : s.ReadyAt base una nxt sent rest) (flows : s.egressL7Hold = false)
    (more : none ∉ stream) : s.writeNext ≤ sent.length := by
  rcases ready.placed flows with inSent | ⟨atEnd, ended⟩
  · exact inSent
  cases rest with
  | nil => exact Nat.le_of_eq atEnd
  | cons seg others =>
    exact absurd (laid.queue.holds.end_mem seg (by simp) (ended seg mem_cons_self)) more

theorem sendDataFrom_exists (lawful : tree.Lawful sackBlockLess)
    (sound : s.Sound base stream una) (flows : s.egressL7Hold = false) (more : none ∉ stream)
    (short : payload.length < maxQueued) (congestion : Congestion) (calm : Bool) :
    ∃ s', (s.pushBack payload).sendDataFrom congestion calm = .ok s' ∧
      s'.Sound base (stream ++ (newOutgoingSegment payload).units) una ∧
      s'.egressL7Hold = false := by
  obtain ⟨nxt, sent, rest, laid, ready, sized⟩ := sound
  have front := ready.front laid flows more
  have length : s.writeList.length = sent.length + rest.length := by
    rw [laid.list, length_append]
  have placed : Placed sent (rest ++ [newOutgoingSegment payload])
      (if (s.pushBack payload).nextSeg?.isNone then (s.pushBack payload).writeList.length - 1
        else (s.pushBack payload).writeNext) := by
    left
    split
    · rename_i none
      -- Everything was sent, so that the new segment is the first one that waits.
      have beyond : (s.pushBack payload).writeList.length ≤ (s.pushBack payload).writeNext := by
        unfold nextSeg? at none
        rw [Option.isNone_iff_eq_none] at none
        exact List.getElem?_eq_none_iff.mp none
      unfold pushBack at beyond ⊢
      simp only [length_append, length_singleton] at beyond ⊢
      split at beyond <;> omega
    rename_i some
    have inside : (s.pushBack payload).writeNext < (s.pushBack payload).writeList.length := by
      apply Nat.lt_of_not_le
      intro beyond
      apply some
      unfold nextSeg?
      rw [List.getElem?_eq_none_iff.mpr beyond]
      rfl
    unfold pushBack at inside ⊢
    simp only [length_append, length_singleton] at inside ⊢
    split at inside
    · omega
    · rename_i before
      rw [if_neg before]
      exact front
  have sound' : { s.pushBack payload with
      writeNext := if (s.pushBack payload).nextSeg?.isNone
        then (s.pushBack payload).writeList.length - 1 else (s.pushBack payload).writeNext }.Sound
        base (stream ++ (newOutgoingSegment payload).units) una :=
    ⟨nxt, sent, _, laid.push more short, ⟨ready.recovering, ready.probing, placed_inside placed,
      fun _ => placed, ready.held⟩, sized⟩
  obtain ⟨s', sends, sound'', hold⟩ := sendData_exists lawful sound' congestion calm
  exact ⟨s', sends, sound'', hold.trans flows⟩

end Sender

end BVisor.Tcp
