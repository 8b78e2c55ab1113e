import BVisor.Data.Run
import BVisor.Tcp.Receiver
import BVisor.Tcp.Sacking

/-! The sequence numbers that a sender works with: the first unacknowledged one, the next one to send,
the window that the peer offers and the scoreboard between them. What the sender transmits and what
the peer acknowledges are its events. -/

namespace BVisor.Tcp

open Data Seqnum Seqnum

structure Ack where
  ackNumber : Seqnum
  window : BitVec 16
  sackBlocks : List SACKBlock
  logicalLen : BitVec 32
  syn : Bool
  fin : Bool
deriving DecidableEq

structure SendSpace (tree : OrderedTree SACKBlock) where
  sndUna : Seqnum
  sndNxt : Seqnum
  sndWnd : BitVec 32
  sndWndScale : Fin (maxWndScale + 1)
  finSent : Bool
  sackPermitted : Bool
  scoreboard : SACKScoreboard tree

def scaleWindow (window : BitVec 16) (scale : Fin (maxWndScale + 1)) : BitVec 32 :=
  window.setWidth 32 <<< scale.val

namespace SendSpace

variable {tree : OrderedTree SACKBlock} (space : SendSpace tree) (ack : Ack)

def initial (iss : Seqnum) (window : BitVec 16) (windowScale sndWndScale : Fin (maxWndScale + 1))
    (sackPermitted : Bool) (smss : BitVec 16) : SendSpace tree :=
  { sndUna := iss + 1
    sndNxt := iss + 1
    sndWnd := scaleWindow window windowScale
    sndWndScale
    finSent := false
    sackPermitted
    scoreboard := .newSACKScoreboard smss iss }

def windowEnd : Seqnum := Seqnum.add space.sndUna space.sndWnd

/-- The first three conditions under which a SACK block is inserted. -/
def inFlight (sb : SACKBlock) : Bool :=
  lessThan ack.ackNumber sb.start && lessThan space.sndUna sb.start && lessThanEq sb.stop space.sndNxt

def insertSACK (sb : SACKBlock) : SendSpace tree :=
  if space.inFlight ack sb && !space.scoreboard.isSACKED sb then
    { space with scoreboard := space.scoreboard.insert sb }
  else space

def insertSACKs : SendSpace tree :=
  if space.sackPermitted then
    ack.sackBlocks.foldl (fun space sb => space.insertSACK ack sb) space
  else space

def acksNewData (number : Seqnum) : Bool := inRange (number - 1) space.sndUna space.sndNxt

def acknowledge (number : Seqnum) : SendSpace tree :=
  { space with sndUna := number, scoreboard := space.scoreboard.deleteBefore number }

def receive : SendSpace tree :=
  let space := space.insertSACKs ack
  let space := { space with sndWnd := scaleWindow ack.window space.sndWndScale }
  if space.acksNewData ack.ackNumber then space.acknowledge ack.ackNumber else space

/-- What sending a segment that ends before `segEnd` does. -/
def advance (segEnd : Seqnum) : SendSpace tree :=
  { space with sndNxt := if lessThan space.sndNxt segEnd then segEnd else space.sndNxt }

/-- The sender transmits new data up to the end of the window, and a FIN once; a retransmission
timeout expunges the scoreboard. -/
inductive Event where
  | transmit (count : BitVec 32)
  | transmitFin
  | receive (ack : Ack)
  | expunge
deriving DecidableEq

def step : Event → Option (SendSpace tree)
  | .transmit count =>
    if lessThan space.sndNxt space.windowEnd ∧
        count.toNat ≤ (Seqnum.size space.sndNxt space.windowEnd).toNat then
      some (space.advance (Seqnum.add space.sndNxt count))
    else none
  | .transmitFin =>
    if space.finSent then none
    else some { space.advance (Seqnum.add space.sndNxt 1) with finSent := true }
  | .receive ack => some (space.receive ack)
  | .expunge => some { space with scoreboard := space.scoreboard.reset }

/-- The block is one of the window: it ends there, and it starts before it ends. -/
def Proper (sb : SACKBlock) : Prop :=
  inRange (sb.stop - 1) space.sndUna space.sndNxt = true ∧ lessThan sb.start sb.stop = true

instance : DecidablePred space.Proper := fun _ => instDecidableAnd

/-- Every SACK block of the segment that is taken for data in flight is one of the window. -/
def Orderly : Prop :=
  space.sackPermitted = true →
    ∀ sb ∈ ack.sackBlocks, space.inFlight ack sb = true → space.Proper sb

instance : Decidable (space.Orderly ack) :=
  inferInstanceAs (Decidable (_ → ∀ sb ∈ ack.sackBlocks, _ → _))

def orderlyStep (event : Event) : Option (SendSpace tree) :=
  match event with
  | .receive ack => if space.Orderly ack then space.step event else none
  | _ => space.step event

/-- The ranges are not empty, pairwise disjoint and in the window, and the counter is the sum of
their lengths. -/
structure WellFormed : Prop where
  nonempty : ∀ block ∈ space.scoreboard.items, offset space.sndUna block.start < offset space.sndUna block.stop
  inWindow : ∀ block ∈ space.scoreboard.items, offset space.sndUna block.stop ≤ offset space.sndUna space.sndNxt
  disjoint : space.scoreboard.items.Pairwise fun a b =>
    offset space.sndUna a.stop ≤ offset space.sndUna b.start
  counted : space.scoreboard.sacked.toNat = (space.scoreboard.items.map fun block => block.size.toNat).sum

def maxSndWnd : Nat := 65535 * 2 ^ maxWndScale

structure OK : Prop where
  window : space.sndWnd.toNat ≤ maxSndWnd
  flight : offset space.sndUna space.sndNxt ≤ maxSndWnd + (if space.finSent then 1 else 0)
  within : space.scoreboard.Within space.sndUna (offset space.sndUna space.sndNxt)

theorem scaleWindow_le (window : BitVec 16) (scale : Fin (maxWndScale + 1)) :
    (scaleWindow window scale).toNat ≤ maxSndWnd := by
  have bound := window.isLt
  have power : 2 ^ scale.val ≤ 2 ^ maxWndScale := Nat.pow_le_pow_right (by decide) (Nat.le_of_lt_succ scale.isLt)
  unfold scaleWindow
  rw [BitVec.toNat_shiftLeft, BitVec.toNat_setWidth, Nat.shiftLeft_eq]
  calc window.toNat % 2 ^ 32 * 2 ^ scale.val % 2 ^ 32
      ≤ window.toNat % 2 ^ 32 * 2 ^ scale.val := Nat.mod_le _ _
    _ ≤ 65535 * 2 ^ maxWndScale := Nat.mul_le_mul (by omega) power

variable {space} {ack}

theorem OK.near (ok : space.OK) : offset space.sndUna space.sndNxt < 2 ^ 30 := by
  have flight := ok.flight
  have most : maxSndWnd = 2 ^ 30 - 2 ^ 14 := rfl
  split at flight <;> omega

theorem windowEnd_offset : offset space.sndUna space.windowEnd = space.sndWnd.toNat := by
  unfold windowEnd add
  rw [offset_add, offset_self, Nat.zero_add]
  rw [offset_self, Nat.zero_add]
  exact space.sndWnd.isLt

section

variable (lawful : tree.Lawful sackBlockLess) {count : BitVec 32}
include lawful

theorem initial_ok (iss : Seqnum) (window : BitVec 16)
    (windowScale sndWndScale : Fin (maxWndScale + 1)) (sackPermitted : Bool) (smss : BitVec 16) :
    (initial iss window windowScale sndWndScale sackPermitted smss : SendSpace tree).OK where
  window := scaleWindow_le window windowScale
  flight := by
    show offset (iss + 1) (iss + 1) ≤ _
    rw [offset_self]
    exact Nat.zero_le _
  within := by
    show SACKScoreboard.Within _ (iss + 1) (offset (iss + 1) (iss + 1))
    rw [offset_self]
    exact within_of_items_nil (by decide) lawful.items_empty rfl

theorem insertSACK_ok {sb : SACKBlock} (ok : space.OK)
    (proper : space.inFlight ack sb = true → space.Proper sb) : (space.insertSACK ack sb).OK := by
  unfold insertSACK
  by_cases inserts : (space.inFlight ack sb && !space.scoreboard.isSACKED sb) = true
  · rw [if_pos inserts]
    rw [Bool.and_eq_true, Bool.not_eq_true'] at inserts
    obtain ⟨inFlight, isNew⟩ := inserts
    obtain ⟨ends, starts⟩ := proper inFlight
    unfold SendSpace.inFlight at inFlight
    rw [Bool.and_eq_true, Bool.and_eq_true] at inFlight
    have stop := offset_of_inRange_pred ends
    have near := ok.near
    have start := offset_between inFlight.1.2 starts stop.1 (by omega)
    exact ⟨ok.window, ok.flight, insert_within lawful ok.within start stop.2 isNew⟩
  · rw [if_neg inserts]
    exact ok

omit lawful in
@[simp] theorem insertSACK_sndUna (sb : SACKBlock) :
    (space.insertSACK ack sb).sndUna = space.sndUna := by
  unfold insertSACK
  split <;> rfl

omit lawful in
@[simp] theorem insertSACK_sndNxt (sb : SACKBlock) :
    (space.insertSACK ack sb).sndNxt = space.sndNxt := by
  unfold insertSACK
  split <;> rfl

theorem insertSACKs_ok (ok : space.OK) (orderly : space.Orderly ack) : (space.insertSACKs ack).OK := by
  unfold insertSACKs
  cases permitted : space.sackPermitted with
  | false => exact ok
  | true =>
    have proper := orderly permitted
    simp only [if_true]
    generalize ack.sackBlocks = blocks at proper
    clear orderly permitted
    induction blocks generalizing space with
    | nil => exact ok
    | cons sb rest ih =>
      apply ih (insertSACK_ok lawful ok (proper sb List.mem_cons_self))
      intro other member
      have properOther := proper other (List.mem_cons_of_mem sb member)
      simp only [inFlight, Proper, insertSACK_sndUna, insertSACK_sndNxt] at properOther ⊢
      exact properOther

theorem acknowledge_ok {number : Seqnum} (ok : space.OK)
    (acks : space.acksNewData number = true) : (space.acknowledge number).OK := by
  have inside := offset_of_inRange_pred acks
  have rebased := offset_rebase inside.2
  refine ⟨ok.window, ?_, ?_⟩
  · show offset number space.sndNxt ≤ _
    have flight := ok.flight
    rw [rebased]
    exact Nat.le_trans (Nat.sub_le _ _) flight
  · show SACKScoreboard.Within _ number (offset number space.sndNxt)
    rw [rebased]
    exact deleteBefore_within lawful ok.within inside.2

theorem receive_ok (ok : space.OK) (orderly : space.Orderly ack) : (space.receive ack).OK := by
  have inserted := insertSACKs_ok lawful ok orderly
  have windowed : { space.insertSACKs ack with
      sndWnd := scaleWindow ack.window (space.insertSACKs ack).sndWndScale :
      SendSpace tree }.OK :=
    ⟨scaleWindow_le _ _, inserted.flight, inserted.within⟩
  unfold receive
  dsimp only
  split
  case isTrue acks => exact acknowledge_ok lawful windowed acks
  case isFalse => exact windowed

omit lawful in
theorem advance_spec (ok : space.OK)
    (near : offset space.sndUna space.sndNxt + count.toNat < 2 ^ 31) :
    offset space.sndUna (space.advance (add space.sndNxt count)).sndNxt =
        offset space.sndUna space.sndNxt + count.toNat ∧
      space.scoreboard.Within space.sndUna
        (offset space.sndUna (space.advance (add space.sndNxt count)).sndNxt) := by
  have segEnd : offset space.sndUna (add space.sndNxt count) =
      offset space.sndUna space.sndNxt + count.toNat := offset_add (by omega)
  have next : offset space.sndUna (space.advance (add space.sndNxt count)).sndNxt =
      offset space.sndUna space.sndNxt + count.toNat := by
    show offset space.sndUna (if _ then _ else _) = _
    rw [@lessThan_offset space.sndUna _ _ (by omega) (by omega), segEnd]
    split
    case isTrue => exact segEnd
    case isFalse stays =>
      rw [decide_eq_true_eq] at stays
      omega
  refine ⟨next, ?_⟩
  rw [next]
  exact ok.within.mono (Nat.le_add_right _ _) near

omit lawful in
theorem advance_ok (ok : space.OK) (room : lessThan space.sndNxt space.windowEnd = true)
    (fits : count.toNat ≤ (size space.sndNxt space.windowEnd).toNat) :
    (space.advance (add space.sndNxt count)).OK := by
  have near := ok.near
  have window := ok.window
  have most : maxSndWnd = 2 ^ 30 - 2 ^ 14 := rfl
  have windowEnd : offset space.sndUna space.windowEnd = space.sndWnd.toNat := windowEnd_offset
  rw [@lessThan_offset space.sndUna _ _ (by omega) (by omega), decide_eq_true_eq] at room
  rw [size_offset (Nat.le_of_lt room)] at fits
  obtain ⟨next, within⟩ := @advance_spec _ _ count ok (by omega)
  refine ⟨window, ?_, within⟩
  apply Nat.le_trans (Nat.le_of_eq next)
  exact Nat.le_trans (by omega : _ ≤ maxSndWnd) (Nat.le_add_right _ _)

omit lawful in
theorem advanceFin_ok (ok : space.OK) (first : space.finSent = false) :
    { space.advance (add space.sndNxt 1) with finSent := true : SendSpace tree }.OK := by
  have near := ok.near
  have flight := ok.flight
  rw [first] at flight
  obtain ⟨next, within⟩ := @advance_spec _ _ 1 ok (by
    show _ + 1 < _
    omega)
  exact ⟨ok.window, Nat.le_trans (Nat.le_of_eq next) (Nat.succ_le_succ flight), within⟩

theorem expunge_ok (ok : space.OK) :
    { space with scoreboard := space.scoreboard.reset : SendSpace tree }.OK :=
  ⟨ok.window, ok.flight, within_of_items_nil ok.within.near lawful.items_empty rfl⟩

theorem orderlyStep_ok (event : Event)
    (next : SendSpace tree) (ok : space.OK) (stepped : space.orderlyStep event = some next) :
    next.OK := by
  cases event with
  | transmit count =>
    simp only [orderlyStep, step] at stepped
    split at stepped
    case isTrue fits =>
      cases stepped
      exact advance_ok ok fits.1 fits.2
    case isFalse => cases stepped
  | transmitFin =>
    simp only [orderlyStep, step] at stepped
    split at stepped
    case isTrue => cases stepped
    case isFalse first =>
      cases stepped
      exact advanceFin_ok ok (Bool.eq_false_iff.mpr first)
  | receive ack =>
    simp only [orderlyStep, step] at stepped
    split at stepped
    case isTrue orderly =>
      cases stepped
      exact receive_ok lawful ok orderly
    case isFalse => cases stepped
  | expunge =>
    cases stepped
    exact expunge_ok lawful ok

end

theorem OK.wellFormed (ok : space.OK) : space.WellFormed where
  nonempty := fun _ member => ok.within.lo_lt_hi member
  inWindow := ok.within.bounded
  disjoint := ok.within.apart.separated.imp Nat.le_of_lt
  counted := by
    rw [ok.within.counted]
    apply congrArg List.sum
    apply List.map_congr_left
    intro block member
    exact (SACKBlock.size_toNat (Nat.le_of_lt (ok.within.lo_lt_hi member))).symm

/-- In every state that a run reaches in which the SACK blocks taken for data in flight are ranges of
the window, the scoreboard is well formed. -/
theorem scoreboard_wellFormed (lawful : tree.Lawful sackBlockLess) (iss : Seqnum)
    (window : BitVec 16) (windowScale sndWndScale : Fin (maxWndScale + 1)) (sackPermitted : Bool)
    (smss : BitVec 16) (space : SendSpace tree)
    (reaches : Reaches orderlyStep
      (initial iss window windowScale sndWndScale sackPermitted smss) space) :
    space.WellFormed :=
  OK.wellFormed (reaches.invariant OK
    (fun _ event next ok stepped => orderlyStep_ok lawful event next ok stepped)
    (initial_ok lawful iss window windowScale sndWndScale sackPermitted smss))

def sampleAck (number : Seqnum) (sackBlocks : List SACKBlock) : Ack :=
  { ackNumber := number, window := 1000, sackBlocks, logicalLen := 0, syn := false, fin := false }

def sampleSpace (sndUna : Seqnum) (sacked : BitVec 32) (maxSACKED : Seqnum)
    (ranges : List SACKBlock) : SendSpace (sortedList sackBlockLess) :=
  { sndUna
    sndNxt := 200
    sndWnd := 1000
    sndWndScale := 0
    finSent := false
    sackPermitted := true
    scoreboard := { smss := 100, maxSACKED, sacked, ranges } }

theorem scoreboard_wellFormed_merged :
    (sampleSpace 120 30 179 [⟨150, 180⟩]).WellFormed :=
  scoreboard_wellFormed (sortedList_lawful sackBlockLess) 99 1000 0 0 true 100 _
    ⟨[.transmit 100, .receive (sampleAck 100 [⟨150, 160⟩, ⟨170, 180⟩, ⟨155, 175⟩]),
      .receive (sampleAck 120 [])], rfl⟩

/-- An ACK that ends inside a block leaves the rest of it, from the first unacknowledged number on;
and a block that ends before it starts is inserted as it is. -/
theorem blocks_outside_window :
    (∃ space, Reaches step (initial 99 1000 0 0 true 100 : SendSpace (sortedList sackBlockLess)) space ∧
      ∃ block ∈ space.scoreboard.items, offset space.sndUna block.start = 0) ∧
    ∃ space, Reaches step (initial 99 1000 0 0 true 100 : SendSpace (sortedList sackBlockLess)) space ∧
      ¬space.WellFormed := by
  constructor
  · refine ⟨sampleSpace 160 20 179 [⟨160, 180⟩], ⟨[.transmit 100,
      .receive (sampleAck 100 [⟨150, 180⟩]), .receive (sampleAck 160 [])], rfl⟩, ?_⟩
    exact ⟨⟨160, 180⟩, List.mem_singleton.mpr rfl, rfl⟩
  · refine ⟨sampleSpace 100 (-100) 99 [⟨150, 50⟩], ⟨[.transmit 100,
      .receive (sampleAck 100 [⟨150, 50⟩])], rfl⟩, ?_⟩
    intro wellFormed
    have inWindow := wellFormed.inWindow ⟨150, 50⟩ (List.mem_singleton.mpr rfl)
    exact absurd inWindow (by decide)

end SendSpace

end BVisor.Tcp
