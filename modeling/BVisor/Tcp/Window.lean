import BVisor.Tcp.Reassembly

/-! The window that the receiver advertises. The receiver counts it in bytes; what the peer learns
is rounded down to a multiple of the scale and cut to 16 bits. -/

namespace BVisor.Tcp

open Data Seqnum

/-- What `getSendParams` reads beside the receiver, and the overhead of a segment. -/
structure Usage where
  rcvBufUsed : Int
  rcvMemUsed : Int
  amss : Nat
  maxSentAck : Seqnum
  segOverheadSize : Int

def wndFromSpace (space : Int) : Int := space >>> 1

namespace Usage

def receiveBufferAvailable (usage : Usage) (rcvBufSize : Int) : Int :=
  if usage.rcvMemUsed ≥ rcvBufSize then 0 else rcvBufSize - usage.rcvMemUsed

def selectWindow (usage : Usage) (rcvBufSize : Int) : BitVec 32 :=
  let wndFromAvailable := wndFromSpace (usage.receiveBufferAvailable rcvBufSize)
  let wndFromUsedBytes := wndFromSpace rcvBufSize - usage.rcvBufUsed
  let newWnd := if wndFromAvailable > wndFromUsedBytes then wndFromUsedBytes else wndFromAvailable
  BitVec.ofInt 32 (if newWnd < 0 then 0 else newWnd)

/-- Whether the threshold was crossed, and whether the window is now above it. -/
def windowCrossedACKThreshold (usage : Usage) (deltaBefore rcvBufSize : Int) : Bool × Bool :=
  let newAvail : Int := (usage.selectWindow rcvBufSize).toNat
  let oldAvail := if newAvail - deltaBefore < 0 then 0 else newAvail - deltaBefore
  let wndThreshold := wndFromSpace (rcvBufSize.tdiv 2)
  let threshold := if (usage.amss : Int) > wndThreshold then wndThreshold else usage.amss
  if oldAvail < threshold ∧ newAvail ≥ threshold then (true, true)
  else if oldAvail ≥ threshold ∧ newAvail < threshold then (true, false)
  else (false, false)

end Usage

/-- A receiver with the fields that only `getSendParams` uses. `edges` are the right edges that the
peer computed from the calls so far, the last one first. -/
structure Advertiser extends Receiver where
  rcvWUP : Seqnum
  prevBufUsed : Int
  edges : List Seqnum

namespace Advertiser

def currentWindow (self : Advertiser) : BitVec 32 :=
  let endOfWnd := add self.rcvWUP self.rcvWnd
  if lessThan endOfWnd self.rcvNxt then 0 else size self.rcvNxt endOfWnd

def grows (self : Advertiser) (usage : Usage) : Bool :=
  let unackLen : Int := (size usage.maxSentAck self.rcvNxt).toNat
  let toGrow := unackLen ≥ usage.segOverheadSize ∨ usage.rcvBufUsed ≤ self.prevBufUsed
  lessThan (add self.rcvNxt self.currentWindow)
    (add self.rcvNxt (usage.selectWindow self.rcvBufSize)) && toGrow

def grownWnd (self : Advertiser) (usage : Usage) : BitVec 32 :=
  if self.grows usage then usage.selectWindow self.rcvBufSize else self.currentWindow

/-- The window before it is scaled. -/
def newWnd (self : Advertiser) (usage : Usage) : BitVec 32 :=
  let newWnd := self.grownWnd usage
  -- Silly-window avoidance keeps a window of zero until it crosses the threshold.
  if self.rcvWnd = 0 ∧ newWnd ≠ 0 ∧
      usage.windowCrossedACKThreshold newWnd.toNat self.rcvBufSize = (false, false) then 0
  else newWnd

def scaledWnd (self : Advertiser) (usage : Usage) : BitVec 32 :=
  let scaledWnd := self.newWnd usage >>> self.rcvWndScale.val
  if scaledWnd.toNat > 0xffff then 0xffff else scaledWnd

/-- The state after the call, and the sequence number and the scaled window that it returns. -/
def getSendParams (self : Advertiser) (usage : Usage) : Advertiser × Seqnum × BitVec 32 :=
  let scale := self.rcvWndScale.val
  let newWnd := self.newWnd usage
  let scaledWnd := self.scaledWnd usage
  ({ self with
      rcvAcc :=
        if self.grows usage then add self.rcvNxt (usage.selectWindow self.rcvBufSize) else self.rcvAcc
      rcvWnd := if (newWnd >>> scale).toNat > 0xffff then scaledWnd <<< scale else newWnd
      rcvWUP := self.rcvNxt
      prevBufUsed := usage.rcvBufUsed }, self.rcvNxt, scaledWnd)

/-- What happens to a receiver: a segment, a call, and what others change of the endpoint. -/
inductive Event where
  | segment (segment : Segment)
  | getSendParams (usage : Usage)
  | endpoint (rcvBufSize : Int) (rcvClosed epClosed finSent : Bool) (sndNxt : Seqnum)
      (state : EndpointState)

def step (self : Advertiser) : Event → Option Advertiser
  | .segment segment => some { self with toReceiver := (self.handleRcvdSegment segment).1 }
  | .getSendParams usage =>
    let (next, rcvNxt, rcvWnd) := self.getSendParams usage
    some { next with edges := add rcvNxt (rcvWnd <<< self.rcvWndScale.val) :: self.edges }
  | .endpoint rcvBufSize rcvClosed epClosed finSent sndNxt state =>
    some { self with rcvBufSize, rcvClosed, epClosed, finSent, sndNxt, state }

def init (irs : Seqnum) (rcvWnd : BitVec 32) (rcvWndScale : Fin (maxWndScale + 1)) (sndNxt : Seqnum)
    (rcvBufSize : Int) : Advertiser :=
  { newReceiver irs rcvWnd rcvWndScale sndNxt rcvBufSize with
    rcvWUP := irs + 1, prevBufUsed := 0, edges := [] }

end Advertiser

namespace Receiver

variable {receiver next : Receiver} {segment : Segment} {held : Bool}

def window (receiver : Receiver) : BitVec 32 × Fin (maxWndScale + 1) :=
  (receiver.rcvWnd, receiver.rcvWndScale)

theorem advance_window (target : Seqnum) :
    (receiver.advance segment target held).window = receiver.window := by
  simp only [advance]
  split <;> rfl

theorem consumeSegment_window (consumed : receiver.consumeSegment segment held = some next) :
    next.window = receiver.window := by
  simp only [consumeSegment] at consumed
  split at consumed <;> split at consumed <;> cases consumed <;> exact advance_window _

theorem drain_window (fuel : Nat) : (receiver.drain fuel).window = receiver.window := by
  induction fuel generalizing receiver with
  | zero => rfl
  | succ fuel ih =>
    simp only [drain]
    split
    · rfl
    split
    · rfl
    split
    · exact ih
    split
    · rfl
    · next consumed =>
      have kept := consumeSegment_window consumed
      exact ih.trans kept

theorem handleRcvdSegment_window :
    (receiver.handleRcvdSegment segment).1.window = receiver.window := by
  unfold handleRcvdSegment
  split
  · dsimp only
    split
    · split
      · unfold store
        split <;> (try split) <;> rfl
      · next consumed => exact (drain_window _).trans (consumeSegment_window consumed)
    · rfl
  · rfl

end Receiver

namespace Advertiser

variable {self next : Advertiser} {usage : Usage} {event : Event}

/-- The sequence numbers consumed since the last call. -/
def consumed (self : Advertiser) : Nat := offset self.rcvWUP self.rcvNxt

def unit (self : Advertiser) : Nat := 2 ^ self.rcvWndScale.val

/-- What is left of the window exceeds a multiple of the unit by no more than the window did. -/
def Aligned (self : Advertiser) : Prop :=
  (self.rcvWnd.toNat - self.consumed) % self.unit ≤ self.rcvWnd.toNat % self.unit

/-- The last edge is that of the window kept, which fits the field that it was sent in. -/
def Sound (self : Advertiser) : Prop :=
  ∀ edge ∈ self.edges.head?, self.rcvWnd.toNat / self.unit ≤ 0xffff ∧
    edge = after self.rcvWUP (self.rcvWnd.toNat / self.unit * self.unit)

theorem rcvNxt_eq : self.rcvNxt = after self.rcvWUP self.consumed := by
  unfold after consumed offset
  rw [BitVec.ofNat_toNat, BitVec.setWidth_eq, BitVec.add_comm, BitVec.sub_add_cancel]

theorem scaled_lt {units : Nat} (fits : units ≤ 0xffff) :
    units * self.unit + self.unit ≤ 2 ^ 30 := by
  have least : self.unit ≤ 2 ^ 14 :=
    Nat.pow_le_pow_right (by omega) (Nat.le_of_lt_succ self.rcvWndScale.isLt)
  have scaled := Nat.mul_le_mul fits least
  omega

theorem wnd_lt (fits : self.rcvWnd.toNat / self.unit ≤ 0xffff) : self.rcvWnd.toNat < 2 ^ 30 := by
  have whole := Nat.lt_div_mul_add (a := self.rcvWnd.toNat) (Nat.two_pow_pos self.rcvWndScale.val)
  exact Nat.lt_of_lt_of_le whole (scaled_lt fits)

theorem currentWindow_toNat (near : self.consumed < 2 ^ 30) (small : self.rcvWnd.toNat < 2 ^ 30) :
    self.currentWindow.toNat = self.rcvWnd.toNat - self.consumed := by
  have last : add self.rcvWUP self.rcvWnd = after self.rcvWUP self.rcvWnd.toNat := by
    unfold after add
    rw [BitVec.ofNat_toNat, BitVec.setWidth_eq]
  simp only [currentWindow]
  rw [last, rcvNxt_eq]
  split
  · next passed =>
    rw [lessThan_after (by omega) (by omega)] at passed
    exact (Nat.sub_eq_zero_of_le (by omega)).symm
  · next within =>
    rw [lessThan_after (by omega) (by omega)] at within
    exact size_after (by omega) (by omega)

theorem newWnd_ge (near : self.consumed < 2 ^ 30) (small : self.rcvWnd.toNat < 2 ^ 30) :
    self.rcvWnd.toNat = 0 ∨ self.rcvWnd.toNat - self.consumed ≤ (self.newWnd usage).toNat := by
  have current := currentWindow_toNat near small
  simp only [newWnd]
  split
  · next stays =>
    rw [stays.1]
    exact Or.inl rfl
  right
  rw [← current]
  unfold grownWnd
  split
  · next grown =>
    simp only [grows, Bool.and_eq_true, lessThan_iff, add, BitVec.toNat_sub, BitVec.toNat_add] at grown
    omega
  · exact Nat.le_refl _

theorem newWnd_shifted :
    (self.newWnd usage >>> self.rcvWndScale.val).toNat = (self.newWnd usage).toNat / self.unit := by
  rw [BitVec.toNat_ushiftRight, Nat.shiftRight_eq_div_pow, unit]

theorem scaledWnd_toNat :
    (self.scaledWnd usage).toNat = min ((self.newWnd usage).toNat / self.unit) 0xffff := by
  simp only [scaledWnd, newWnd_shifted]
  split
  · next exceeds => exact (Nat.min_eq_right (Nat.le_of_lt exceeds)).symm
  · exact newWnd_shifted.trans (Nat.min_eq_left (by omega)).symm

theorem scaledWnd_le : (self.scaledWnd usage).toNat ≤ 0xffff :=
  scaledWnd_toNat.trans_le (Nat.min_le_right _ _)

theorem scaledWnd_ge (fits : self.rcvWnd.toNat / self.unit ≤ 0xffff) (near : self.consumed < 2 ^ 30)
    (aligned : self.Aligned) :
    self.rcvWnd.toNat / self.unit * self.unit ≤
      self.consumed + (self.scaledWnd usage).toNat * self.unit := by
  have whole := Nat.div_add_mod' self.rcvWnd.toNat self.unit
  rcases @newWnd_ge self usage near (wnd_lt fits) with zero | kept
  · omega
  have part := Nat.div_add_mod' (self.rcvWnd.toNat - self.consumed) self.unit
  have least : (self.rcvWnd.toNat - self.consumed) / self.unit ≤ (self.scaledWnd usage).toNat := by
    rw [scaledWnd_toNat]
    refine Nat.le_min.mpr ⟨Nat.div_le_div_right kept, Nat.le_trans ?_ fits⟩
    exact Nat.div_le_div_right (Nat.sub_le _ _)
  have scaled := Nat.mul_le_mul_right self.unit least
  unfold Aligned at aligned
  omega

theorem call_spec (stepped : self.step (.getSendParams usage) = some next) :
    next.Sound ∧ next.edges =
      after self.rcvNxt ((self.scaledWnd usage).toNat * self.unit) :: self.edges := by
  have scaled : self.scaledWnd usage <<< self.rcvWndScale.val =
      BitVec.ofNat 32 ((self.scaledWnd usage).toNat * self.unit) := by
    apply BitVec.eq_of_toNat_eq
    rw [BitVec.toNat_shiftLeft, Nat.shiftLeft_eq]
    rfl
  simp only [step, getSendParams, scaled, newWnd_shifted, Option.some.injEq] at stepped
  have kept : next.rcvWnd.toNat / self.unit = (self.scaledWnd usage).toNat := by
    subst stepped
    dsimp only
    split
    · have limit := @scaled_lt self _ (@scaledWnd_le self usage)
      rw [BitVec.toNat_ofNat, Nat.mod_eq_of_lt (by omega)]
      exact Nat.mul_div_cancel _ (Nat.two_pow_pos _)
    · exact (scaledWnd_toNat.trans (Nat.min_eq_left (by omega))).symm
  have unit : next.unit = self.unit := by rw [← stepped]; rfl
  refine ⟨fun last head => ?_, by rw [← stepped]; rfl⟩
  rw [unit, kept]
  subst stepped
  cases head
  exact ⟨scaledWnd_le, rfl⟩

/-- A call is the first one, or comes after fewer than `2 ^ 30` numbers that leave the receiver
aligned. -/
def Timely (self : Advertiser) : Event → Prop
  | .getSendParams _ => self.edges = [] ∨ self.consumed < 2 ^ 30 ∧ self.Aligned
  | _ => True

def Ordered (self : Advertiser) : Prop :=
  self.edges.IsChain fun later earlier => lessThan later earlier = false

theorem Sound.moved {receiver : Receiver} (sound : self.Sound)
    (kept : receiver.window = self.window) : Sound { self with toReceiver := receiver } := by
  simp only [Receiver.window, Prod.mk.injEq] at kept
  simpa only [Sound, unit, kept] using sound

theorem step_ordered (invariant : self.Sound ∧ self.Ordered) (timely : self.Timely event)
    (stepped : self.step event = some next) : next.Sound ∧ next.Ordered := by
  obtain ⟨sound, ordered⟩ := invariant
  cases event with
  | segment segment =>
    cases stepped
    exact ⟨sound.moved Receiver.handleRcvdSegment_window, ordered⟩
  | endpoint =>
    cases stepped
    exact ⟨sound.moved rfl, ordered⟩
  | getSendParams usage =>
    obtain ⟨sound', edges⟩ := call_spec stepped
    refine ⟨sound', ?_⟩
    unfold Ordered at ordered ⊢
    rw [edges]
    cases before : self.edges with
    | nil => exact List.isChain_singleton _
    | cons last earlier =>
      rw [before] at ordered
      refine List.isChain_cons_cons.mpr ⟨?_, ordered⟩
      obtain ⟨near, aligned⟩ : self.consumed < 2 ^ 30 ∧ self.Aligned := by
        simpa [Timely, before] using timely
      obtain ⟨fits, edge⟩ := sound last (by rw [before]; rfl)
      have kept := @scaledWnd_ge self usage fits near aligned
      have small := @scaled_lt self _ fits
      have small' := @scaled_lt self _ (@scaledWnd_le self usage)
      rw [after, rcvNxt_eq, after_add, edge, ← Bool.not_eq_true, lessThan_after (by omega) (by omega)]
      omega

variable {events : List Event} {irs sndNxt : Seqnum} {rcvWnd : BitVec 32}
  {rcvWndScale : Fin (maxWndScale + 1)} {rcvBufSize : Int}

/-- In every run whose calls are timely, no call of `getSendParams` moves the right edge to the
left of where the call before it put it. -/
theorem edges_never_recede
    (ran : run step (init irs rcvWnd rcvWndScale sndNxt rcvBufSize) events = some self)
    (timely : Along step Timely (init irs rcvWnd rcvWndScale sndNxt rcvBufSize) events) :
    self.Ordered :=
  (run_invariant_along (fun self => self.Sound ∧ self.Ordered)
    (fun _ _ _ invariant guarded stepped => step_ordered invariant guarded stepped) ran timely
    ⟨nofun, List.isChain_nil⟩).2

/-- A call, a segment of three bytes, and a call before the application reads. -/
def unread : List Event :=
  [.getSendParams
      { rcvBufUsed := 0, rcvMemUsed := 0, amss := 1460, maxSentAck := 101, segOverheadSize := 552 },
    .segment
      { sequenceNumber := 101, ackNumber := 500, syn := false, fin := false, ack := true,
        payload := [1, 2, 3], segMemSize := 555, short := by decide },
    .getSendParams
      { rcvBufUsed := 3, rcvMemUsed := 555, amss := 1460, maxSentAck := 101, segOverheadSize := 552 }]

/-- With a buffer of 1 MiB the edge moves 125 numbers to the left. -/
theorem edge_recedes :
    ∃ self, run step (init 100 29184 7 500 1048576) unread = some self ∧
      self.edges = [524264, 524389] ∧ ¬ self.Ordered := by
  refine ⟨_, rfl, by decide, fun ordered => ?_⟩
  exact absurd (List.isChain_cons_cons.mp ordered).1 (by decide)

/-- With 200 bytes more the window is 100 numbers larger than what is advertised of it, which is
enough for the three bytes. -/
theorem edges_never_recede_scaled :
    ∃ self, run step (init 100 29184 7 500 1048776) unread = some self ∧
      self.edges = [524392, 524389] ∧ self.Ordered := by
  have ran : ∃ self, run step (init 100 29184 7 500 1048776) unread = some self ∧
      self.edges = [524392, 524389] := ⟨_, rfl, by decide⟩
  obtain ⟨self, ran, edges⟩ := ran
  refine ⟨self, ran, edges, edges_never_recede ran ⟨Or.inl rfl, ?_⟩⟩
  rintro _ ⟨⟩
  refine ⟨trivial, ?_⟩
  rintro _ ⟨⟩
  exact ⟨Or.inr ⟨by decide, by unfold Aligned; decide⟩, fun _ _ => trivial⟩

end Advertiser

end BVisor.Tcp
