import BVisor.Tcp.Sender

/-! What the write list of a sender holds: the segments that were sent, numbered one after the other
from the first unacknowledged number, and after them those that wait. Positions count the numbers
after the initial one. The stream is what the application has written, with a mark at its end once
it is closed; a segment without data stands for that mark. -/

namespace BVisor.Tcp

open Data Seqnum OutgoingSegment
open List hiding after

variable {base : Seqnum} {stream : List (Option Byte)} {una nxt start stop size : Nat}
  {seg other : OutgoingSegment} {segments sent rest before later : List OutgoingSegment}

def OutgoingSegment.units (seg : OutgoingSegment) : List (Option Byte) :=
  if seg.payload = [] then [none] else seg.payload.map some

def units (segments : List OutgoingSegment) : List (Option Byte) :=
  segments.flatMap OutgoingSegment.units

def maxQueued : Nat := 2 ^ 30

/-- The segments hold the stream from `una` on. -/
structure Holds (stream : List (Option Byte)) (una : Nat) (segments : List OutgoingSegment) :
    Prop where
  reached : una ≤ stream.length
  content : units segments = stream.drop una
  short : ∀ seg ∈ segments, seg.payload.length < maxQueued
  ended : none ∉ stream.dropLast

structure OutgoingSegment.SentAt (seg : OutgoingSegment) (base : Seqnum) (start : Nat) : Prop where
  number : seg.sequenceNumber = after base start
  flagged : seg.flags.ack = true
  sent : seg.xmitCount ≠ 0
  fin : seg.flags.fin = seg.payload.isEmpty

/-- The segments were sent and take the positions from `start` to `stop`. -/
def Sent (base : Seqnum) : Nat → List OutgoingSegment → Nat → Prop
  | start, [], stop => start = stop
  | start, seg :: rest, stop => seg.SentAt base start ∧ Sent base (start + seg.units.length) rest stop

/-- The segment has the number `next`, but has not been sent. -/
structure OutgoingSegment.NumberedAt (seg : OutgoingSegment) (base : Seqnum) (next : Nat) :
    Prop where
  number : seg.sequenceNumber = after base next
  flagged : seg.flags.ack = true
  noFin : seg.flags.fin = false

/-- The segment has not been sent; it may have the number `next`. -/
structure OutgoingSegment.ReadyAt (seg : OutgoingSegment) (base : Seqnum) (next : Nat) : Prop where
  unsent : seg.xmitCount = 0
  numbered : seg.isAssignedSequenceNumber = true → seg.NumberedAt base next

/-- The segment has neither been sent nor numbered. -/
def OutgoingSegment.Fresh (seg : OutgoingSegment) : Prop :=
  seg.xmitCount = 0 ∧ seg.isAssignedSequenceNumber = false

/-- The segments wait; the first of them may have its number. -/
def Waiting (base : Seqnum) (next : Nat) : List OutgoingSegment → Prop
  | [] => True
  | seg :: rest => seg.ReadyAt base next ∧ ∀ other ∈ rest, other.Fresh

/-- The write list is made of segments that were sent and of those that wait, and holds the stream
from `una` on. -/
structure Queue (base : Seqnum) (stream : List (Option Byte)) (una nxt : Nat)
    (sent rest : List OutgoingSegment) : Prop where
  holds : Holds stream una (sent ++ rest)
  sent : Sent base una sent nxt
  waiting : Waiting base nxt rest

/-! What segments hold. -/

namespace OutgoingSegment

theorem units_pos : 0 < seg.units.length := by
  unfold units
  split
  case isTrue => exact Nat.one_pos
  case isFalse data =>
    rw [length_map]
    exact length_pos_iff.mpr data

theorem units_data (data : seg.payload ≠ []) : seg.units = seg.payload.map some := by
  unfold units
  rw [if_neg data]

theorem units_length_data (data : seg.payload ≠ []) : seg.units.length = seg.payload.length := by
  rw [units_data data, length_map]

theorem units_end (empty : seg.payload = []) : seg.units = [none] := by
  unfold units
  rw [if_pos empty]

theorem units_congr (same : seg.payload = other.payload) : seg.units = other.units := by
  unfold units
  rw [same]

theorem SentAt.logicalLen_eq (sentAt : seg.SentAt base start) : seg.logicalLen = seg.units.length := by
  unfold logicalLen units
  rw [sentAt.fin]
  cases seg.payload with
  | nil => rfl
  | cons byte rest => simp

theorem assigned_of_flagged (flagged : seg.flags.ack = true) : seg.isAssignedSequenceNumber = true := by
  unfold isAssignedSequenceNumber
  rw [bne_iff_ne]
  intro unset
  rw [unset] at flagged
  cases flagged

theorem Fresh.readyAt (fresh : seg.Fresh) : seg.ReadyAt base start :=
  ⟨fresh.1, fun assigned => absurd assigned (by rw [fresh.2]; exact Bool.false_ne_true)⟩

end OutgoingSegment

@[simp] theorem units_nil : units [] = [] := rfl

@[simp] theorem units_append (first second : List OutgoingSegment) :
    units (first ++ second) = units first ++ units second :=
  flatMap_append

@[simp] theorem units_cons (seg : OutgoingSegment) (rest : List OutgoingSegment) :
    units (seg :: rest) = seg.units ++ units rest :=
  flatMap_cons

theorem units_eq_nil (none : units segments = []) : segments = [] := by
  cases segments with
  | nil => rfl
  | cons seg rest =>
    have length := congrArg List.length none
    have positive := seg.units_pos
    simp only [units_cons, length_append, length_nil] at length
    omega

theorem Holds.edit (old new : List OutgoingSegment) (holds : Holds stream una (before ++ (old ++ later)))
    (same : units new = units old) (short : ∀ seg ∈ new, seg.payload.length < maxQueued) :
    Holds stream una (before ++ (new ++ later)) := by
  refine ⟨holds.reached, ?_, ?_, holds.ended⟩
  · rw [← holds.content]
    simp only [units_append, same]
  · intro seg member
    rcases mem_append.mp member with inBefore | member
    · exact holds.short seg (mem_append_left _ inBefore)
    · rcases mem_append.mp member with inNew | inLater
      · exact short seg inNew
      · exact holds.short seg (mem_append_right _ (mem_append_right _ inLater))

theorem Holds.replace (holds : Holds stream una (before ++ seg :: later)) (payload : other.payload = seg.payload) :
    Holds stream una (before ++ other :: later) := by
  apply Holds.edit [seg] [other] holds
  · simp only [units_cons, units_congr payload]
  · intro member inNew
    obtain rfl := mem_singleton.mp inNew
    rw [payload]
    exact holds.short seg (by simp)

theorem Holds.front_le (holds : Holds stream una (before ++ later)) :
    una + (units before).length ≤ stream.length := by
  have length := congrArg List.length holds.content
  have reached := holds.reached
  rw [units_append, length_append, length_drop] at length
  omega

theorem Holds.drop (holds : Holds stream una (before ++ seg :: later)) :
    stream.drop (una + (units before).length) = seg.units ++ units later := by
  rw [← drop_drop, ← holds.content, units_append, drop_left, units_cons]

theorem Holds.end_last (holds : Holds stream una (before ++ seg :: later))
    (empty : seg.payload = []) : later = [] := by
  have found := holds.drop
  rw [units_end empty] at found
  cases later with
  | nil => rfl
  | cons next others =>
    exfalso
    apply holds.ended
    rw [← take_append_drop (una + (units before).length) stream, found, dropLast_append_of_ne_nil (by simp)]
    apply mem_append_right
    cases rest : units (next :: others) with
    | nil => exact absurd (units_eq_nil rest) (cons_ne_nil _ _)
    | cons unit units => exact mem_cons_self

theorem Holds.end_mem (seg : OutgoingSegment) (holds : Holds stream una segments)
    (member : seg ∈ segments) (empty : seg.payload = []) : none ∈ stream := by
  apply mem_of_mem_drop (i := una)
  rw [← holds.content]
  apply mem_flatMap.mpr
  refine ⟨seg, member, ?_⟩
  rw [units_end empty]
  exact mem_singleton.mpr rfl

/-! Segments that were sent. -/

theorem sent_append :
    Sent base start (before ++ later) stop ↔
      ∃ middle, Sent base start before middle ∧ Sent base middle later stop := by
  induction before generalizing start with
  | nil =>
    constructor
    · exact fun sent => ⟨start, rfl, sent⟩
    · rintro ⟨_, rfl, sent⟩
      exact sent
  | cons head tail ih =>
    constructor
    · rintro ⟨first, others⟩
      obtain ⟨middle, before, later⟩ := ih.mp others
      exact ⟨middle, ⟨first, before⟩, later⟩
    · rintro ⟨middle, ⟨first, before⟩, later⟩
      exact ⟨first, ih.mpr ⟨middle, before, later⟩⟩

theorem Sent.stop_eq (sent : Sent base start segments stop) : stop = start + (units segments).length := by
  induction segments generalizing start with
  | nil => exact sent.symm
  | cons head tail ih =>
    rw [ih sent.2, units_cons, length_append, Nat.add_assoc]

theorem Sent.le (sent : Sent base start segments stop) : start ≤ stop := by
  rw [sent.stop_eq]
  exact Nat.le_add_right _ _

theorem Sent.nonempty (sent : Sent base start segments stop) (ahead : start < stop) : segments ≠ [] := by
  rintro rfl
  exact Nat.ne_of_lt ahead sent

theorem Sent.xmitCount (sent : Sent base start segments stop) :
    ∀ seg ∈ segments, seg.xmitCount ≠ 0 := by
  induction segments generalizing start with
  | nil => exact fun _ member => (nomatch member)
  | cons head tail ih =>
    intro seg member
    rcases mem_cons.mp member with rfl | member
    · exact sent.1.sent
    · exact ih sent.2 seg member

theorem Sent.around (sent : Sent base start (before ++ seg :: later) stop) :
    Sent base start before (start + (units before).length) ∧
      seg.SentAt base (start + (units before).length) ∧
      Sent base (start + (units before).length + seg.units.length) later stop := by
  obtain ⟨middle, first, sentAt, others⟩ := sent_append.mp sent
  obtain rfl := first.stop_eq
  exact ⟨first, sentAt, others⟩

theorem Waiting.xmitCount (waiting : Waiting base nxt rest) : ∀ seg ∈ rest, seg.xmitCount = 0 := by
  cases rest with
  | nil => exact fun _ member => (nomatch member)
  | cons head tail =>
    intro seg member
    rcases mem_cons.mp member with rfl | member
    · exact waiting.1.unsent
    · exact (waiting.2 seg member).1

/-! What the sender does to a segment that was sent. -/

namespace Queue

theorem holds_around (queue : Queue base stream una nxt (before ++ seg :: later) rest) :
    Holds stream una (before ++ ([seg] ++ (later ++ rest))) := by
  have holds := queue.holds
  rw [append_assoc] at holds
  exact holds

theorem edit (new : List OutgoingSegment) (queue : Queue base stream una nxt (before ++ seg :: later) rest)
    (same : units new = seg.units) (short : ∀ other ∈ new, other.payload.length < maxQueued)
    (sent : Sent base (una + (units before).length) new
      (una + (units before).length + seg.units.length)) :
    Queue base stream una nxt (before ++ (new ++ later)) rest := by
  obtain ⟨first, _, others⟩ := queue.sent.around
  refine ⟨?_, ?_, queue.waiting⟩
  · rw [append_assoc, append_assoc]
    apply queue.holds_around.edit [seg] new _ short
    rw [same, units_cons, units_nil, append_nil]
  · exact sent_append.mpr ⟨_, first, sent_append.mpr ⟨_, sent, others⟩⟩

theorem replace (queue : Queue base stream una nxt (before ++ seg :: later) rest)
    (number : other.sequenceNumber = seg.sequenceNumber)
    (ack : other.flags.ack = seg.flags.ack) (fin : other.flags.fin = seg.flags.fin)
    (payload : other.payload = seg.payload) (xmitCount : other.xmitCount ≠ 0) :
    Queue base stream una nxt (before ++ other :: later) rest := by
  obtain ⟨first, sentAt, others⟩ := queue.sent.around
  refine ⟨?_, sent_append.mpr ⟨_, first, ⟨?_, ?_, xmitCount, ?_⟩, ?_⟩, queue.waiting⟩
  · rw [append_assoc]
    exact queue.holds_around.replace payload
  · rw [number, sentAt.number]
  · rw [ack, sentAt.flagged]
  · rw [fin, payload, sentAt.fin]
  · rw [units_congr payload]
    exact others

variable {first second : OutgoingSegment}

theorem cut_units (positive : 0 < size) (inside : size < seg.payload.length)
    (payload₁ : first.payload = seg.payload.take size) (payload₂ : second.payload = seg.payload.drop size) :
    first.payload ≠ [] ∧ second.payload ≠ [] ∧ first.payload.length = size ∧ units [first, second] = seg.units ∧
      ∀ other ∈ [first, second], other.payload.length ≤ seg.payload.length := by
  have data : seg.payload ≠ [] := ne_nil_of_length_pos (Nat.zero_lt_of_lt inside)
  have length₁ : first.payload.length = size := by
    rw [payload₁, length_take, Nat.min_eq_left (Nat.le_of_lt inside)]
  have length₂ : second.payload.length = seg.payload.length - size := by
    rw [payload₂, length_drop]
  have data₁ : first.payload ≠ [] := ne_nil_of_length_pos (by omega)
  have data₂ : second.payload ≠ [] := ne_nil_of_length_pos (by omega)
  refine ⟨data₁, data₂, length₁, ?_, ?_⟩
  · simp only [units_cons, units_nil, append_nil]
    rw [units_data data₁, units_data data₂,
      units_data data, ← map_append, payload₁, payload₂,
      take_append_drop]
  · intro other member
    simp only [mem_cons, not_mem_nil, or_false] at member
    rcases member with rfl | rfl <;> omega

theorem split (queue : Queue base stream una nxt (before ++ seg :: later) rest)
    (positive : 0 < size) (inside : size < seg.payload.length)
    (firstAt : first.sequenceNumber = seg.sequenceNumber ∧ first.payload = seg.payload.take size ∧
      first.flags.ack = seg.flags.ack ∧ first.flags.fin = seg.flags.fin ∧
      first.xmitCount = seg.xmitCount)
    (secondAt : second.sequenceNumber = seg.sequenceNumber + BitVec.ofNat 32 size ∧
      second.payload = seg.payload.drop size ∧ second.flags = seg.flags ∧
      second.xmitCount = seg.xmitCount) :
    Queue base stream una nxt (before ++ first :: second :: later) rest := by
  obtain ⟨_, sentAt, _⟩ := queue.sent.around
  obtain ⟨number₁, payload₁, ack₁, fin₁, xmitCount₁⟩ := firstAt
  obtain ⟨number₂, payload₂, flags₂, xmitCount₂⟩ := secondAt
  obtain ⟨data₁, data₂, length₁, same, shorter⟩ := cut_units positive inside payload₁ payload₂
  have noFin : seg.flags.fin = false := by
    rw [sentAt.fin, isEmpty_eq_false_iff]
    exact ne_nil_of_length_pos (Nat.zero_lt_of_lt inside)
  have short := queue.holds_around.short seg (by simp)
  apply queue.edit [first, second] same
  · exact fun other member => Nat.lt_of_le_of_lt (shorter other member) short
  · refine ⟨⟨?_, ?_, ?_, ?_⟩, ⟨?_, ?_, ?_, ?_⟩, ?_⟩
    · rw [number₁, sentAt.number]
    · rw [ack₁, sentAt.flagged]
    · rw [xmitCount₁]
      exact sentAt.sent
    · rw [fin₁, noFin, isEmpty_eq_false_iff.mpr data₁]
    · rw [number₂, sentAt.number, units_length_data data₁, length₁, after_add]
    · rw [flags₂, sentAt.flagged]
    · rw [xmitCount₂]
      exact sentAt.sent
    · rw [flags₂, noFin, isEmpty_eq_false_iff.mpr data₂]
    · show _ = _
      rw [← same]
      simp [Nat.add_assoc]

theorem markLost_exists {tree : OrderedTree SACKBlock} (s : Sender tree) (elapsed : Nat → Bool)
    (index : Nat) (queue : Queue base stream una nxt (before ++ sent) rest) :
    ∃ marked numLost, s.markLost elapsed index (sent ++ rest) = (marked ++ rest, numLost) ∧
      Queue base stream una nxt (before ++ marked) rest ∧ marked.length = sent.length ∧
      (0 < numLost → sent ≠ []) := by
  induction sent generalizing before index with
  | nil =>
    refine ⟨[], 0, ?_, queue, rfl, fun positive => absurd positive (Nat.lt_irrefl 0)⟩
    cases rest with
    | nil => rfl
    | cons seg others =>
      rw [nil_append, Sender.markLost, if_pos queue.waiting.1.unsent]
  | cons seg tail ih =>
    have transmitted : seg.xmitCount ≠ 0 := queue.sent.around.2.1.sent
    rw [cons_append, Sender.markLost, if_neg transmitted]
    -- The segment keeps its number and data, marked or not.
    have kept : ∀ other : OutgoingSegment, other.sequenceNumber = seg.sequenceNumber →
        other.flags = seg.flags → other.payload = seg.payload → other.xmitCount ≠ 0 →
        ∃ marked numLost,
          s.markLost elapsed (index + 1) (tail ++ rest) = (marked ++ rest, numLost) ∧
          Queue base stream una nxt (before ++ other :: marked) rest ∧
          marked.length = tail.length := by
      intro other number flags payload xmitCount
      have replaced := queue.replace number (by rw [flags]) (by rw [flags]) payload xmitCount
      rw [← singleton_append, ← append_assoc] at replaced
      obtain ⟨marked, numLost, run, after, length, _⟩ := ih (index + 1) replaced
      rw [append_assoc, singleton_append] at after
      exact ⟨marked, numLost, run, after, length⟩
    obtain ⟨marked, numLost, run, after, length⟩ := kept seg rfl rfl rfl transmitted
    obtain ⟨marked', numLost', run', after', _⟩ := kept { seg with lost := true } rfl rfl rfl transmitted
    obtain ⟨sameList, rfl⟩ := Prod.mk.inj (run.symm.trans run')
    obtain rfl := append_cancel_right sameList
    dsimp only
    rw [run]
    dsimp only
    split
    · exact ⟨seg :: marked, numLost, rfl, after, by simp [length], by simp⟩
    split
    · exact ⟨seg :: marked, numLost + 1, rfl, after, by simp [length], by simp⟩
    · split
      · exact ⟨{ seg with lost := true } :: marked, numLost + 1, rfl, after', by simp [length], by simp⟩
      · exact ⟨seg :: marked, numLost, rfl, after, by simp [length], by simp⟩

/-! What the sender does to the first segment that waits. -/

section

variable (queue : Queue base stream una nxt sent (seg :: rest))
include queue

theorem holds_first : Holds stream una (sent ++ ([seg] ++ rest)) :=
  queue.holds

theorem assign (payload : other.payload = seg.payload) (unsent : other.xmitCount = 0)
    (numbered : other.NumberedAt base nxt) :
    Queue base stream una nxt sent (other :: rest) := by
  exact ⟨queue.holds.replace payload, queue.sent, ⟨unsent, fun _ => numbered⟩, queue.waiting.2⟩

omit queue in
theorem merge {nSeg merged : OutgoingSegment} (queue : Queue base stream una nxt sent (seg :: nSeg :: rest))
    (data : seg.payload ≠ []) (data' : nSeg.payload ≠ []) (payload : merged.payload = seg.payload ++ nSeg.payload)
    (short : merged.payload.length < maxQueued) (fresh : merged.Fresh) :
    Queue base stream una nxt sent (merged :: rest) := by
  have mergedData : merged.payload ≠ [] := by
    rw [payload]
    exact fun empty => data (append_eq_nil_iff.mp empty).1
  refine ⟨?_, queue.sent, fresh.readyAt, fun member inRest =>
    queue.waiting.2 member (mem_cons_of_mem _ inRest)⟩
  have holds : Holds stream una (sent ++ ([seg, nSeg] ++ rest)) := queue.holds
  apply holds.edit [seg, nSeg] [merged]
  · simp only [units_cons, units_nil, append_nil]
    rw [units_data mergedData, units_data data,
      units_data data', ← map_append, payload]
  · intro member inNew
    obtain rfl := mem_singleton.mp inNew
    exact short

theorem send (sentAt : other.SentAt base nxt) (payload : other.payload = seg.payload) :
    Queue base stream una (nxt + seg.units.length) (sent ++ [other]) rest := by
  refine ⟨?_, ?_, ?_⟩
  · rw [append_assoc]
    exact queue.holds.replace payload
  · refine sent_append.mpr ⟨nxt, queue.sent, sentAt, ?_⟩
    rw [units_congr payload]
    rfl
  · cases rest with
    | nil => trivial
    | cons next others =>
      have fresh := queue.waiting.2
      exact ⟨(fresh next mem_cons_self).readyAt, (forall_mem_cons.mp fresh).2⟩

theorem sendFirst (positive : 0 < size) (inside : size < seg.payload.length)
    (payload₁ : first.payload = seg.payload.take size) (firstAt : first.SentAt base nxt)
    (payload₂ : second.payload = seg.payload.drop size) (secondAt : second.ReadyAt base (nxt + size)) :
    Queue base stream una (nxt + size) (sent ++ [first]) (second :: rest) := by
  obtain ⟨data₁, data₂, length₁, same, shorter⟩ := cut_units positive inside payload₁ payload₂
  have short := queue.holds_first.short seg (by simp)
  refine ⟨?_, ?_, secondAt, queue.waiting.2⟩
  · rw [append_assoc]
    apply queue.holds_first.edit [seg] [first, second]
    · rw [same, units_cons, units_nil, append_nil]
    · exact fun other member => Nat.lt_of_le_of_lt (shorter other member) short
  · refine sent_append.mpr ⟨nxt, queue.sent, firstAt, ?_⟩
    rw [units_length_data data₁, length₁]
    rfl

theorem rest_of_end (empty : seg.payload = []) : rest = [] :=
  queue.holds.end_last empty

theorem mergeLoop_exists {available : Nat}
    (fresh : seg.Fresh) (data : seg.payload ≠ []) (few : available < maxQueued) :
    ∃ merged left nextTooBig,
      Sender.mergeLoop available seg rest = (merged, left, nextTooBig) ∧
      Queue base stream una nxt sent (merged :: left) := by
  induction rest generalizing seg with
  | nil => exact ⟨seg, [], false, rfl, queue⟩
  | cons nSeg tail ih =>
    rw [Sender.mergeLoop]
    by_cases atEnd : nSeg.payload.length = 0
    · rw [if_pos atEnd]
      exact ⟨seg, nSeg :: tail, false, rfl, queue⟩
    rw [if_neg atEnd]
    by_cases tooBig : seg.payload.length + nSeg.payload.length > available
    · rw [if_pos tooBig]
      exact ⟨seg, nSeg :: tail, true, rfl, queue⟩
    rw [if_neg tooBig]
    have data' : nSeg.payload ≠ [] := fun empty => atEnd (by rw [empty]; rfl)
    apply ih
    · refine queue.merge data data' rfl ?_ ⟨fresh.1, fresh.2⟩
      rw [length_append]
      omega
    · exact fresh
    · exact fun empty => data (append_eq_nil_iff.mp empty).1

end

/-! Both ends of the list. -/

theorem push (queue : Queue base stream una nxt sent rest) (more : none ∉ stream)
    (short : seg.payload.length < maxQueued) (fresh : seg.Fresh) :
    Queue base (stream ++ seg.units) una nxt sent (rest ++ [seg]) := by
  refine ⟨⟨?_, ?_, ?_, ?_⟩, queue.sent, ?_⟩
  · rw [length_append]
    exact Nat.le_add_right_of_le queue.holds.reached
  · rw [← append_assoc, units_append, queue.holds.content, units_cons, units_nil,
      append_nil, drop_append_of_le_length queue.holds.reached]
  · intro member inList
    rw [← append_assoc] at inList
    rcases mem_append.mp inList with inList | inNew
    · exact queue.holds.short member inList
    · obtain rfl := mem_singleton.mp inNew
      exact short
  · intro inside
    rw [dropLast_append_of_ne_nil (ne_nil_of_length_pos seg.units_pos)] at inside
    rcases mem_append.mp inside with inStream | inNew
    · exact more inStream
    unfold OutgoingSegment.units at inNew
    split at inNew
    case isTrue => cases inNew
    case isFalse =>
      have inPayload := dropLast_subset _ inNew
      simp at inPayload
  · cases rest with
    | nil => exact ⟨fresh.readyAt, fun _ member => (nomatch member)⟩
    | cons first others =>
      refine ⟨queue.waiting.1, ?_⟩
      intro member inOthers
      rcases mem_append.mp inOthers with inOthers | inNew
      · exact queue.waiting.2 member inOthers
      · obtain rfl := mem_singleton.mp inNew
        exact fresh

theorem pop (queue : Queue base stream una nxt (seg :: sent) rest) :
    Queue base stream (una + seg.units.length) nxt sent rest := by
  refine ⟨⟨?_, ?_, ?_, queue.holds.ended⟩, queue.sent.2, queue.waiting⟩
  · have front := queue.holds.front_le
    rw [units_cons, length_append] at front
    omega
  · rw [← drop_drop, ← queue.holds.content, cons_append, units_cons, drop_left]
  · exact (forall_mem_cons.mp queue.holds.short).2

theorem trim (queue : Queue base stream una nxt (seg :: sent) rest) (inside : size < seg.payload.length)
    (number : other.sequenceNumber = seg.sequenceNumber + BitVec.ofNat 32 size)
    (payload : other.payload = seg.payload.drop size) (flags : other.flags = seg.flags)
    (xmitCount : other.xmitCount = seg.xmitCount) :
    Queue base stream (una + size) nxt (other :: sent) rest := by
  have sentAt := queue.sent.1
  have data : seg.payload ≠ [] := ne_nil_of_length_pos (Nat.zero_lt_of_lt inside)
  have length : other.payload.length = seg.payload.length - size := by
    rw [payload, length_drop]
  have data' : other.payload ≠ [] := ne_nil_of_length_pos (by omega)
  have short := queue.holds.short seg mem_cons_self
  refine ⟨⟨?_, ?_, ?_, queue.holds.ended⟩, ⟨⟨?_, ?_, ?_, ?_⟩, ?_⟩, queue.waiting⟩
  · have front := queue.holds.front_le
    rw [units_cons, length_append, units_length_data data] at front
    omega
  · rw [← drop_drop, ← queue.holds.content, cons_append, cons_append, units_cons,
      units_cons, units_data data, units_data data', payload,
      map_drop, drop_append_of_le_length]
    rw [length_map]
    exact Nat.le_of_lt inside
  · intro member inList
    rcases mem_cons.mp inList with rfl | inList
    · omega
    · exact queue.holds.short member (mem_cons_of_mem _ inList)
  · rw [number, sentAt.number, after_add]
  · rw [flags, sentAt.flagged]
  · rw [xmitCount]
    exact sentAt.sent
  · rw [flags, sentAt.fin, isEmpty_eq_false_iff.mpr data, isEmpty_eq_false_iff.mpr data']
  · have others := queue.sent.2
    rw [units_length_data data] at others
    rw [units_length_data data', length,
      show una + size + (seg.payload.length - size) = una + seg.payload.length by omega]
    exact others

theorem removeAcked_exists (queue : Queue base stream una nxt sent rest) {acked : Nat}
    (known : una + acked ≤ nxt) (writeNext : Nat) :
    ∃ sent' removed, Sender.removeAcked acked (sent ++ rest) writeNext =
        .ok (sent' ++ rest, writeNext - removed) ∧
      Queue base stream (una + acked) nxt sent' rest ∧ sent'.length + removed = sent.length := by
  induction sent generalizing una acked writeNext with
  | nil =>
    have none : acked = 0 := by
      have reached : una = nxt := queue.sent
      omega
    subst none
    exact ⟨[], 0, by rw [Sender.removeAcked]; rfl, queue, rfl⟩
  | cons seg tail ih =>
    cases acked with
    | zero => exact ⟨seg :: tail, 0, by rw [Sender.removeAcked]; rfl, queue, rfl⟩
    | succ ackLeft =>
      have datalen := queue.sent.1.logicalLen_eq
      rw [cons_append, Sender.removeAcked]
      by_cases part : seg.logicalLen > ackLeft + 1
      · have data : seg.payload ≠ [] := by
          intro empty
          rw [datalen, units_end empty] at part
          simp at part
        have inside : ackLeft + 1 < seg.payload.length := by
          rw [← units_length_data data, ← datalen]
          exact part
        rw [if_pos part]
        exact ⟨_ :: tail, 0, rfl, queue.trim inside rfl rfl rfl rfl, rfl⟩
      · rw [if_neg part]
        obtain ⟨sent', removed, run, after, count⟩ :=
          @ih (una + seg.units.length) queue.pop (ackLeft + 1 - seg.logicalLen) (by omega) (writeNext - 1)
        refine ⟨sent', removed + 1, ?_, ?_, ?_⟩
        · rw [run, Nat.sub_sub, Nat.add_comm 1 removed]
        · rw [show una + (ackLeft + 1) = una + seg.units.length + (ackLeft + 1 - seg.logicalLen) by omega]
          exact after
        · rw [length_cons, ← count, Nat.add_assoc]

end Queue

end BVisor.Tcp
