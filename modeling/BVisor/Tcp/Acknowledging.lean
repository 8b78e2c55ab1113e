import BVisor.Tcp.Recovery

/-! What a received segment does to a sender: acknowledged data leaves the front of the write list, and
nothing else. -/

namespace BVisor.Tcp

open Data Seqnum

variable {tree : OrderedTree SACKBlock} {base : Seqnum} {stream : List (Option Byte)}
  {una nxt : Nat} {sent rest : List OutgoingSegment} {s : Sender tree} {ack : Ack}

namespace SACKScoreboard

variable {scoreboard : SACKScoreboard tree}

theorem foldl_remove_smss (blocks : List SACKBlock) :
    (blocks.foldl remove scoreboard).smss = scoreboard.smss := by
  induction blocks generalizing scoreboard with
  | nil => rfl
  | cons block rest ih => exact ih

theorem insert_smss (r : SACKBlock) : (scoreboard.insert r).smss = scoreboard.smss := by
  unfold insert
  split
  · rfl
  · exact foldl_remove_smss _

theorem deleteBefore_smss (seq : Seqnum) :
    (scoreboard.deleteBefore seq).smss = scoreboard.smss := by
  unfold deleteBefore
  split
  · rfl
  · rfl

end SACKScoreboard

namespace SendSpace

variable {space : SendSpace tree}

structure SameNumbers (space space' : SendSpace tree) : Prop where
  sndUna : space'.sndUna = space.sndUna
  sndNxt : space'.sndNxt = space.sndNxt
  finSent : space'.finSent = space.finSent
  smss : space'.scoreboard.smss = space.scoreboard.smss

theorem insertSACK_same (sb : SACKBlock) : space.SameNumbers (space.insertSACK ack sb) := by
  unfold insertSACK
  split
  · exact ⟨rfl, rfl, rfl, SACKScoreboard.insert_smss sb⟩
  · exact ⟨rfl, rfl, rfl, rfl⟩

theorem foldl_insertSACK_same (blocks : List SACKBlock) :
    space.SameNumbers (blocks.foldl (fun space sb => space.insertSACK ack sb) space) := by
  induction blocks generalizing space with
  | nil => exact ⟨rfl, rfl, rfl, rfl⟩
  | cons sb rest ih =>
    have first := @insertSACK_same tree ack space sb
    have others := @ih (space.insertSACK ack sb)
    exact ⟨others.sndUna.trans first.sndUna, others.sndNxt.trans first.sndNxt,
      others.finSent.trans first.finSent, others.smss.trans first.smss⟩

theorem insertSACKs_same : space.SameNumbers (space.insertSACKs ack) := by
  unfold insertSACKs
  split
  · exact foldl_insertSACK_same _
  · exact ⟨rfl, rfl, rfl, rfl⟩

end SendSpace

namespace Sender

variable {space : SendSpace tree}

theorem Laid.withSpace (laid : s.Laid base stream una nxt sent rest)
    (same : s.space.SameNumbers space) (ok : space.OK) :
    { s with space }.Laid base stream una nxt sent rest :=
  ⟨laid.list, laid.queue, same.sndUna.trans laid.sndUna, same.sndNxt.trans laid.sndNxt, laid.close,
    ok, fun finSent => laid.finSent (same.finSent.symm.trans finSent), laid.emitted⟩

theorem sized_withSpace (sized : s.Sized) (same : s.space.SameNumbers space) : { s with space }.Sized := by
  unfold Sized Sender.smss
  show Sizes s.maxPayloadSize s.gsoLimit space.scoreboard.smss.toNat
  rw [same.smss]
  exact sized

section

variable (sound : s.Sound base stream una)
include sound

theorem sound_withSpace (same : s.space.SameNumbers space) (ok : space.OK) :
    { s with space }.Sound base stream una := by
  obtain ⟨nxt, sent, rest, laid, ready, sized⟩ := sound
  exact ⟨nxt, sent, rest, laid.withSpace same ok, ready, sized_withSpace sized same⟩

theorem Sound.spaceOK : s.space.OK := by
  obtain ⟨_, _, _, laid, _, _⟩ := sound
  exact laid.spaceOK

omit sound in
theorem after_pred (positive : 0 < nxt) : after base nxt - 1 = after base (nxt - 1) := by
  have next : after base nxt = after base (nxt - 1) + 1 := by
    have added := @after_add base (nxt - 1) 1
    rw [Nat.sub_add_cancel positive] at added
    exact added.symm
  rw [next, BitVec.add_sub_cancel]

/-! Recoveries begin with unacknowledged data and end. -/

theorem enterRecovery_sound (ahead : s.space.sndUna ≠ s.space.sndNxt) :
    s.enterRecovery.Sound base stream una := by
  obtain ⟨nxt, sent, rest, laid, ready, sized⟩ := sound
  have above : una < nxt := by
    apply Nat.lt_of_le_of_ne laid.queue.sent.le
    rintro rfl
    exact ahead (by rw [laid.sndUna, laid.sndNxt])
  refine ⟨nxt, sent, rest, laid, ⟨fun _ => ⟨nxt - 1, ?_, by omega, by omega⟩, ready.probing,
    ready.inside, ready.placed, ready.held⟩, sized⟩
  show s.space.sndNxt - 1 = _
  rw [laid.sndNxt, after_pred (by omega)]

theorem leaveRecovery_sound : s.leaveRecovery.Sound base stream una := by
  obtain ⟨nxt, sent, rest, laid, ready, sized⟩ := sound
  exact ⟨nxt, sent, rest, laid, ⟨fun active => (nomatch active), ready.probing, ready.inside,
    ready.placed, ready.held⟩, sized⟩

omit sound in
theorem acksNewData_una : s.space.acksNewData s.space.sndUna = false := by
  unfold SendSpace.acksNewData
  rw [Bool.eq_false_iff]
  intro acks
  have inside := offset_of_inRange_pred acks
  rw [offset_self] at inside
  exact Nat.lt_irrefl _ inside.1

/-- In a recovery that goes on, the segment acknowledges nothing after the recovery's last number. -/
def Awaits (s : Sender tree) (ack : Ack) : Prop :=
  s.fastRecovery.active = true → s.space.acksNewData ack.ackNumber = true →
    lessThan s.fastRecovery.last ack.ackNumber = false

theorem detectLoss_sound (calm : s.fastRecovery.active = false) (isNew reord : Bool) :
    (s.detectLoss ack isNew reord).1.Sound base stream una ∧
      (s.detectLoss ack isNew reord).1.Awaits ack ∧
      (s.detectLoss ack isNew reord).1.egressL7Hold = s.egressL7Hold := by
  have still : ∀ s' : Sender tree, s'.fastRecovery.active = s.fastRecovery.active → s'.Awaits ack := by
    intro s' same active
    rw [same, calm] at active
    cases active
  unfold detectLoss
  split
  · exact ⟨sound, still _ rfl, rfl⟩
  split
  · exact ⟨sound, still _ rfl, rfl⟩
  rename_i dup
  dsimp only
  split
  · exact ⟨@sound_recovery _ _ _ _ _ sound { s.fastRecovery with highRxt := s.space.sndUna - 1 }
      rfl rfl, still _ rfl, rfl⟩
  split
  · exact ⟨sound, still _ rfl, rfl⟩
  -- A duplicate ACK is one of the first unacknowledged number, with data after it.
  simp only [isDupAck, Bool.not_eq_true', Bool.not_eq_false, Bool.and_eq_true, bne_iff_ne,
    beq_iff_eq] at dup
  have sound' : { s with dupAckCount := s.dupAckCount + 1 }.Sound base stream una := sound
  refine ⟨enterRecovery_sound sound' dup.1.1.1.1.2, ?_, rfl⟩
  intro _ acks
  have acks' : s.space.acksNewData ack.ackNumber = true := acks
  rw [dup.1.2, acksNewData_una] at acks'
  cases acks'

theorem detectTLPRecovery_sound (awaits : s.Awaits ack) (isNew : Bool) :
    (s.detectTLPRecovery ack isNew).Sound base stream una ∧
      (s.detectTLPRecovery ack isNew).Awaits ack ∧
      (s.detectTLPRecovery ack isNew).egressL7Hold = s.egressL7Hold := by
  unfold detectTLPRecovery
  split
  · exact ⟨sound, awaits, rfl⟩
  dsimp only
  split
  · split
    · exact ⟨sound, awaits, rfl⟩
    refine ⟨?_, fun active => (nomatch active), rfl⟩
    obtain ⟨nxt, sent, rest, laid, ready, sized⟩ := sound
    exact ⟨nxt, sent, rest, laid, ⟨fun active => (nomatch active), ready.probing, ready.inside,
      ready.placed, ready.held⟩, sized⟩
  · exact ⟨sound, awaits, rfl⟩

theorem followRecovery_sound (isNew reord : Bool) :
    (s.followRecovery ack isNew reord).1.Sound base stream una ∧
      (s.followRecovery ack isNew reord).1.Awaits ack ∧
      (s.followRecovery ack isNew reord).1.egressL7Hold = s.egressL7Hold := by
  unfold followRecovery
  split
  · split
    · exact ⟨leaveRecovery_sound sound, fun active => (nomatch active), rfl⟩
    rename_i stays
    refine ⟨sound, ?_, rfl⟩
    intro _ acks
    rw [acks, Bool.true_and] at stays
    exact Bool.eq_false_iff.mpr stays
  · rename_i calm
    exact detectLoss_sound sound (Bool.eq_false_iff.mpr calm) isNew reord

section

omit sound

theorem window_ok (ok : space.OK) :
    { space with sndWnd := scaleWindow ack.window space.sndWndScale : SendSpace tree }.OK :=
  ⟨SendSpace.scaleWindow_le _ _, ok.flight, ok.within⟩

theorem noteSegment_sound (lawful : tree.Lawful sackBlockLess) (sound : s.Sound base stream una)
    (orderly : s.space.Orderly ack) (input : AckInput) :
    (s.noteSegment ack input).1.Sound base stream una ∧
      (s.noteSegment ack input).1.Awaits ack ∧
      (s.noteSegment ack input).1.egressL7Hold = s.egressL7Hold := by
  have sound₁ : { s with space := s.space.insertSACKs ack }.Sound base stream una :=
    sound_withSpace sound SendSpace.insertSACKs_same (SendSpace.insertSACKs_ok lawful sound.spaceOK orderly)
  unfold noteSegment
  generalize s.hasNewSACKInfo ack = isNew
  obtain ⟨sound₂, awaits₂, hold₂⟩ := @followRecovery_sound _ _ _ _ _ ack sound₁ isNew input.reord
  dsimp only
  generalize Sender.followRecovery _ ack isNew input.reord = followed at sound₂ awaits₂ hold₂ ⊢
  have traced : ∃ s₃, (if followed.1.rack then followed.1.detectTLPRecovery ack isNew
      else followed.1) = s₃ ∧ s₃.Sound base stream una ∧ s₃.Awaits ack ∧
      s₃.egressL7Hold = s.egressL7Hold := by
    split
    · obtain ⟨sound₃, awaits₃, hold₃⟩ := detectTLPRecovery_sound sound₂ awaits₂ isNew
      exact ⟨_, rfl, sound₃, awaits₃, hold₃.trans hold₂⟩
    · exact ⟨_, rfl, sound₂, awaits₂, hold₂⟩
  obtain ⟨s₃, same, sound₃, awaits₃, hold₃⟩ := traced
  rw [same]
  exact ⟨sound_withSpace sound₃ ⟨rfl, rfl, rfl, rfl⟩ (window_ok sound₃.spaceOK), awaits₃, hold₃⟩

theorem Laid.acked (laid : s.Laid base stream una nxt sent rest) {number : Seqnum}
    (acks : s.space.acksNewData number = true) :
    ∃ acked, (Seqnum.size s.space.sndUna number).toNat = acked ∧ 0 < acked ∧ una + acked ≤ nxt ∧
      number = after base (una + acked) := by
  obtain ⟨positive, known⟩ := offset_of_inRange_pred acks
  rw [laid.flight] at known
  have ahead := laid.queue.sent.le
  refine ⟨_, rfl, positive, ?_, ?_⟩
  · show una + offset s.space.sndUna number ≤ nxt
    omega
  · rw [← after_add, ← laid.sndUna, BitVec.ofNat_toNat, BitVec.setWidth_eq]
    unfold Seqnum.size
    rw [BitVec.add_comm, BitVec.sub_add_cancel]

theorem handleNewAck_exists (lawful : tree.Lawful sackBlockLess) (sound : s.Sound base stream una)
    (awaits : s.Awaits ack) (acks : s.space.acksNewData ack.ackNumber = true) (calm : Bool) :
    ∃ s' acked, s.handleNewAck ack.ackNumber calm = .ok s' ∧ s'.Sound base stream (una + acked) ∧
      acked < 2 ^ 30 ∧ s'.egressL7Hold = s.egressL7Hold := by
  obtain ⟨nxt, sent, rest, laid, ready, sized⟩ := sound
  obtain ⟨acked, size, positive, known, number⟩ := laid.acked acks
  obtain ⟨sent', removed, removes, queue, count⟩ := laid.queue.removeAcked_exists known s.writeNext
  have near := laid.near
  unfold handleNewAck
  dsimp only
  rw [size, laid.list, removes]
  refine ⟨_, acked, rfl, ⟨nxt, sent', rest, ⟨rfl, queue, number, laid.sndNxt, ?_,
    SendSpace.acknowledge_ok lawful laid.spaceOK acks, laid.finSent, laid.emitted⟩, ?_, ?_⟩, by omega,
    rfl⟩
  · have close := laid.close
    omega
  · refine ⟨?_, ?_, ?_, ?_, ready.held⟩
    · intro active
      obtain ⟨last, position, low, high⟩ := ready.recovering active
      refine ⟨last, position, ?_, high⟩
      have notAfter := awaits active acks
      rw [position, number, Bool.eq_false_iff] at notAfter
      apply Nat.le_of_not_lt
      intro below
      exact notAfter ((lessThan_after (by omega) (by omega)).mpr below)
    · intro armed
      have further : ack.ackNumber ≠ s.space.sndNxt := by
        have armed' : (s.shouldSchedulePTO calm && ack.ackNumber != s.space.sndNxt) = true := armed
        rw [Bool.and_eq_true, bne_iff_ne] at armed'
        exact armed'.2
      apply Nat.lt_of_le_of_ne known
      intro all
      exact further (by rw [number, laid.sndNxt, all])
    · have inside := ready.inside
      show s.writeNext - removed ≤ _
      omega
    · intro flows
      have placed := ready.placed flows
      show Placed sent' rest (s.writeNext - removed)
      rcases placed with inSent | ⟨atEnd, ended⟩
      · exact .inl (by omega)
      · exact .inr ⟨by omega, ended⟩
  · unfold Sized Sender.smss
    show Sizes s.maxPayloadSize s.gsoLimit (s.space.scoreboard.deleteBefore ack.ackNumber).smss.toNat
    rw [SACKScoreboard.deleteBefore_smss]
    exact sized

end

theorem rackDetectLoss_sound (elapsed : Nat → Bool) :
    (s.rackDetectLoss elapsed).1.Sound base stream una ∧
      (s.rackDetectLoss elapsed).1.egressL7Hold = s.egressL7Hold ∧
      (0 < (s.rackDetectLoss elapsed).2 → (s.rackDetectLoss elapsed).1.space.sndUna ≠
          (s.rackDetectLoss elapsed).1.space.sndNxt) := by
  obtain ⟨nxt, sent, rest, laid, ready, sized⟩ := sound
  have queue : Queue base stream una nxt ([] ++ sent) rest := laid.queue
  obtain ⟨marked, numLost, marks, queue', length, lost⟩ := queue.markLost_exists s elapsed 0
  unfold rackDetectLoss
  rw [laid.list, marks]
  refine ⟨⟨nxt, marked, rest, ⟨rfl, queue', laid.sndUna, laid.sndNxt, laid.close, laid.spaceOK,
    laid.finSent, laid.emitted⟩, ready.congr length, sized⟩, rfl, ?_⟩
  intro some same
  have positive : 0 < sent.length := List.length_pos_iff.mpr (lost some)
  have same' : s.space.sndUna = s.space.sndNxt := same
  have near := laid.near
  have ahead := laid.queue.sent.le
  rw [laid.sndUna, laid.sndNxt, after_inj (by omega) (by omega)] at same'
  have stops := laid.queue.sent.stop_eq
  cases sent with
  | nil => exact absurd positive (Nat.lt_irrefl 0)
  | cons seg later =>
    have units := seg.units_pos
    rw [units_cons, List.length_append] at stops
    omega

theorem rackStart_sound (fastRetransmit : Bool) (elapsed : Nat → Bool) :
    (s.rackStart fastRetransmit elapsed).1.Sound base stream una ∧
      (s.rackStart fastRetransmit elapsed).1.egressL7Hold = s.egressL7Hold := by
  obtain ⟨sound', hold, ahead⟩ := rackDetectLoss_sound sound elapsed
  unfold rackStart
  dsimp only
  split
  · rename_i enters
    rw [Bool.and_eq_true, decide_eq_true_eq] at enters
    exact ⟨enterRecovery_sound sound' (ahead enters.1), hold⟩
  · exact ⟨sound', hold⟩

theorem rackRecover_exists (fastRetransmit : Bool) (input : AckInput) :
    ∃ s', s.rackRecover fastRetransmit input = .ok s' ∧ s'.Sound base stream una ∧
      s'.egressL7Hold = s.egressL7Hold := by
  obtain ⟨sound₁, hold₁⟩ := rackStart_sound sound fastRetransmit input.elapsed
  unfold rackRecover
  split
  · dsimp only
    split
    · rename_i active
      obtain ⟨s₂, recovers, sound₂, hold₂⟩ := rackDoRecovery_exists sound₁ active
        (s.rackStart fastRetransmit input.elapsed).2 input.recovery input.calm
      exact ⟨s₂, recovers, sound₂, hold₂.trans hold₁⟩
    · exact ⟨_, rfl, sound₁, hold₁⟩
  · exact ⟨s, rfl, sound, rfl⟩

end

theorem recoverAndSend_exists (lawful : tree.Lawful sackBlockLess) (sound : s.Sound base stream una)
    (fastRetransmit : Bool) (input : AckInput) :
    ∃ s', s.recoverAndSend ack fastRetransmit input = .ok s' ∧ s'.Sound base stream una ∧
      s'.egressL7Hold = s.egressL7Hold := by
  obtain ⟨s₁, recovers, sound₁, hold₁⟩ := rackRecover_exists sound fastRetransmit input
  unfold recoverAndSend
  rw [recovers]
  dsimp only
  split
  · rename_i active
    rw [Bool.and_eq_true] at active
    split
    · obtain ⟨s₂, recovers, sound₂, hold₂⟩ := sackDoRecovery_exists sound₁ active.1 ack.ackNumber
        fastRetransmit input.recovery input.calm
      exact ⟨s₂, recovers, sound₂, hold₂.trans hold₁⟩
    · obtain ⟨sound₂, hold₂⟩ := renoDoRecovery_sound sound₁ active.1 ack fastRetransmit
      obtain ⟨s₃, sends, sound₃, hold₃⟩ := sendData_exists lawful sound₂ input.data input.calm
      exact ⟨s₃, sends, sound₃, hold₃.trans (hold₂.trans hold₁)⟩
  · obtain ⟨s₂, sends, sound₂, hold₂⟩ := sendData_exists lawful sound₁ input.data input.calm
    exact ⟨s₂, sends, sound₂, hold₂.trans hold₁⟩

theorem handleRcvdSegment_exists (lawful : tree.Lawful sackBlockLess)
    (sound : s.Sound base stream una) (orderly : s.space.Orderly ack) (input : AckInput) :
    ∃ s' acked, s.handleRcvdSegment ack input = .ok s' ∧ s'.Sound base stream (una + acked) ∧
      acked < 2 ^ 30 ∧ s'.egressL7Hold = s.egressL7Hold := by
  obtain ⟨sound₁, awaits₁, hold₁⟩ := noteSegment_sound lawful sound orderly input
  unfold handleRcvdSegment
  dsimp only
  generalize (s.noteSegment ack input).2 = fastRetransmit
  generalize (s.noteSegment ack input).1 = s₁ at sound₁ awaits₁ hold₁ ⊢
  have probed : ∃ s₂, (if s₁.zeroWindowProbing && s₁.space.sndWnd != 0 &&
      (ack.ackNumber == s₁.space.sndUna || s₁.space.acksNewData ack.ackNumber) then
      { s₁ with zeroWindowProbing := false, unackZeroWindowProbes := 0 } else s₁) = s₂ ∧
      s₂.Sound base stream una ∧ s₂.Awaits ack ∧ s₂.egressL7Hold = s.egressL7Hold := by
    split
    · exact ⟨_, rfl, sound₁, awaits₁, hold₁⟩
    · exact ⟨_, rfl, sound₁, awaits₁, hold₁⟩
  obtain ⟨s₂, same, sound₂, awaits₂, hold₂⟩ := probed
  rw [same]
  split
  · exact ⟨_, 0, rfl, sound₂, by decide, hold₂⟩
  split
  · rename_i acks
    obtain ⟨s₃, acked, acknowledges, sound₃, few, hold₃⟩ :=
      handleNewAck_exists lawful sound₂ awaits₂ acks input.calm
    rw [acknowledges]
    obtain ⟨s₄, sends, sound₄, hold₄⟩ := @recoverAndSend_exists _ _ _ _ _ ack lawful sound₃ fastRetransmit input
    exact ⟨s₄, acked, sends, sound₄, few, hold₄.trans (hold₃.trans hold₂)⟩
  · obtain ⟨s₃, sends, sound₃, hold₃⟩ := @recoverAndSend_exists _ _ _ _ _ ack lawful sound₂ fastRetransmit input
    exact ⟨s₃, 0, sends, sound₃, by decide, hold₃.trans hold₂⟩

end Sender

end BVisor.Tcp
