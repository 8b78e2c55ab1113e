import BVisor.Network.Reassembly

/-! The fragments of one payload, delivered in any order, and the fragmenter that makes them. -/

namespace BVisor.Network

open Data List

variable {fragment : Fragment} {hole gap : Hole} {index top : Nat} {reassembler : Reassembler}

/-- The fragments of a payload, in order: they hold its bytes, all but the one at the end have sizes
that are multiples of 8, and the payload is not longer than an IP packet. -/
structure Cut (payload : List Byte) (fragments : List Fragment) : Prop where
  tiled : Tiles Fragment.first Fragment.last 0 fragments payload.length
  data : ∀ fragment ∈ fragments, fragment.data = (payload.take (fragment.last + 1)).drop fragment.first
  more : ∀ fragment ∈ fragments, fragment.more = false ↔ fragment.last + 1 = payload.length
  sizes : ∀ fragment ∈ fragments, fragment.more = true → 8 ∣ fragment.data.length
  nonempty : payload ≠ []
  short : payload.length ≤ maxUint16

variable {payload : List Byte} {fragments arrived : List Fragment}

/-- A reassembler that has been given some of the fragments of a payload. -/
structure Received (payload : List Byte) (fragments arrived : List Fragment) (top : Nat)
    (reassembler : Reassembler) : Prop where
  sound : reassembler.Sound top arrived
  enough : payload.length ≤ top + 1
  source : ∀ hole ∈ reassembler.holes, hole.filled = true →
    ∃ fragment ∈ fragments, fragment ∈ arrived ∧ hole.first = fragment.first ∧
      hole.last = fragment.last ∧ hole.data = fragment.data
  proto : ∀ fragment ∈ fragments, fragment ∈ arrived → fragment.first = 0 → reassembler.proto = fragment.proto

theorem Cut.bounds (cut : Cut payload fragments) (member : fragment ∈ fragments) :
    fragment.first ≤ fragment.last ∧ fragment.last < payload.length :=
  ⟨(cut.tiled.bounds member).2.1, (cut.tiled.bounds member).2.2⟩

section

variable (received : Received payload fragments arrived top reassembler)

include received

section

variable (cut : Cut payload fragments)
include cut

section

variable (member : fragment ∈ fragments)
include member

theorem Received.filled_eq (inside : hole ∈ reassembler.holes) (filled : hole.filled = true) (point : Nat)
    (within : hole.first ≤ point ∧ point ≤ hole.last) (within' : fragment.first ≤ point ∧ point ≤ fragment.last) :
    fragment ∈ arrived ∧ hole.first = fragment.first ∧ hole.last = fragment.last ∧
      hole.data = fragment.data := by
  obtain ⟨other, known, there, first, last, data⟩ := received.source hole inside filled
  have same : other = fragment := cut.tiled.unique known member ⟨by omega, by omega⟩ within'
  subst same
  exact ⟨there, first, last, data⟩

theorem Received.touched (inside : hole ∈ reassembler.holes) (touches : hole.Touches fragment) :
    hole.Repeats fragment ∨ hole.Accepts fragment := by
  have laid := received.sound.laid
  have bounds := cut.bounds member
  have enough := received.enough
  have holeBounds := laid.bounds inside
  obtain ⟨low, high⟩ := touches
  cases filled : hole.filled with
  | true =>
    obtain ⟨there, first, last, _⟩ := received.filled_eq cut member inside filled
      (max hole.first fragment.first) ⟨by omega, by omega⟩ ⟨by omega, by omega⟩
    obtain ⟨part, partInside, repeats⟩ := received.sound.given fragment there
    have same : hole = part := by
      obtain ⟨_, first', last', _⟩ := repeats
      exact laid.unique hole.first inside partInside ⟨Nat.le_refl _, by omega⟩ ⟨by omega, by omega⟩
    exact .inl (same ▸ repeats)
  | false =>
    -- a filled range that starts inside the fragment would be the fragment's own
    have notInside : ∀ other ∈ reassembler.holes, other.filled = true →
        fragment.first < other.first → ¬ other.first ≤ fragment.last := by
      intro other otherInside otherFilled after before
      have proper := (laid.bounds otherInside).1
      have := received.filled_eq cut member otherInside otherFilled other.first
        ⟨Nat.le_refl _, proper⟩ ⟨by omega, before⟩
      omega
    have holdsEnd : ∀ other ∈ reassembler.holes, other.filled = false →
        fragment.first ≤ other.last → fragment.last ≤ other.last := by
      intro other otherInside otherMissing reaches
      refine Nat.le_of_not_lt fun sticksOut => ?_
      rcases laid.next other otherInside otherMissing with atTop | ⟨behind, there, full, follows⟩
      · omega
      · exact notInside behind there full (by omega) (by omega)
    have contains : hole.Contains fragment := by
      refine ⟨Nat.le_of_not_lt fun starts => ?_, holdsEnd hole inside filled high⟩
      obtain ⟨other, otherInside, within⟩ := laid.covers (show fragment.first ≤ top by omega)
      have apart : other.last < hole.first := by
        refine Nat.lt_of_not_le fun meets => ?_
        have same := laid.unique hole.first otherInside inside ⟨by omega, meets⟩ ⟨Nat.le_refl _, holeBounds.1⟩
        subst same
        omega
      cases otherFilled : other.filled with
      | true =>
        have := received.filled_eq cut member otherInside otherFilled fragment.first within
          ⟨Nat.le_refl _, bounds.1⟩
        omega
      | false =>
        have := holdsEnd other otherInside otherFilled within.2
        omega
    refine .inr ⟨filled, contains, fun isFinal => (laid.final hole inside).mpr ?_⟩
    rcases laid.next hole inside filled with atTop | ⟨other, otherInside, full, follows⟩
    · exact atTop
    obtain ⟨known, knownMember, _, first, _⟩ := received.source other otherInside full
    have ends := (cut.more fragment member).mp isFinal
    have := cut.bounds knownMember
    have := contains.2
    omega

omit member in
theorem Received.incomplete_iff : Incomplete reassembler.holes ↔ ∃ fragment ∈ fragments, fragment ∉ arrived := by
  have laid := received.sound.laid
  have enough := received.enough
  constructor
  · rintro ⟨hole, inside, missing⟩
    refine Classical.byContradiction fun none => ?_
    have all : ∀ fragment ∈ fragments, fragment ∈ arrived := fun fragment member =>
      Classical.byContradiction fun absent => none ⟨fragment, member, absent⟩
    have size : 0 < payload.length := length_pos_iff.mpr cut.nonempty
    obtain ⟨last, lastMember, _, reaches⟩ := cut.tiled.covers (Nat.zero_le _) (Nat.sub_lt size Nat.one_pos)
    have lastBounds := cut.bounds lastMember
    obtain ⟨part, partInside, _, _, partLast, final⟩ := received.sound.given last (all last lastMember)
    have atTop := (laid.final part partInside).mp (final ((cut.more last lastMember).mpr (by omega)))
    have holeBounds := laid.bounds inside
    obtain ⟨fragment, member, within⟩ :=
      cut.tiled.covers (Nat.zero_le hole.first) (show hole.first < payload.length by omega)
    obtain ⟨copy, copyInside, filled, first, lastEq, _⟩ := received.sound.given fragment (all fragment member)
    have same : hole = copy := laid.unique hole.first inside copyInside
      ⟨Nat.le_refl _, holeBounds.1⟩ ⟨by omega, by omega⟩
    rw [same, filled] at missing
    cases missing
  · rintro ⟨fragment, member, absent⟩
    have bounds := cut.bounds member
    obtain ⟨hole, inside, within⟩ := laid.covers (show fragment.first ≤ top by omega)
    refine ⟨hole, inside, ?_⟩
    cases filled : hole.filled with
    | false => rfl
    | true =>
      have := (received.filled_eq cut member inside filled fragment.first within ⟨Nat.le_refl _, bounds.1⟩).1
      exact absurd this absent

theorem Received.repeated (repeated : ∃ hole ∈ reassembler.holes, hole.Repeats fragment) :
    Received payload fragments (arrived ++ [fragment]) top reassembler := by
  obtain ⟨hole, inside, repeats⟩ := repeated
  have there : fragment ∈ arrived := by
    obtain ⟨filled, first, last, _⟩ := repeats
    have bounds := cut.bounds member
    exact (received.filled_eq cut member inside filled fragment.first ⟨by omega, by omega⟩
      ⟨Nat.le_refl _, bounds.1⟩).1
  have same : ∀ other, other ∈ arrived ++ [fragment] ↔ other ∈ arrived := by
    intro other
    simp only [mem_append, mem_singleton, or_iff_left_iff_imp]
    rintro rfl
    exact there
  refine ⟨received.sound.repeated ⟨hole, inside, repeats⟩, received.enough, ?_, ?_⟩
  · simpa only [same] using received.source
  · simpa only [same] using received.proto

theorem Received.fill (found : reassembler.holes[index]? = some gap) (accepts : gap.Accepts fragment) :
    Received payload fragments (arrived ++ [fragment]) (topAfter fragment top)
      (reassembler.fill index gap fragment) := by
  have bounds := cut.bounds member
  refine ⟨received.sound.fill found bounds.1 accepts, ?_, ?_, ?_⟩
  · unfold topAfter
    cases more : fragment.more with
    | true => exact received.enough
    | false => exact Nat.le_of_eq ((cut.more fragment member).mp more).symm
  · intro hole inside filled
    rcases (mem_filling found received.sound.laid).mp inside with
      ⟨old, _⟩ | before | rfl | after
    · obtain ⟨other, known, there, same⟩ := received.source hole old filled
      exact ⟨other, known, mem_append_left _ there, same⟩
    · rw [(Hole.mem_before.mp before).2] at filled
      cases filled
    · exact ⟨fragment, member, mem_append_right _ (mem_singleton_self _), rfl, rfl, rfl⟩
    · rw [(Hole.mem_after.mp after).2] at filled
      cases filled
  · intro other known there atStart
    show (if fragment.first = 0 then fragment.proto else reassembler.proto) = other.proto
    split
    · rename_i isFirst
      have same : fragment = other := cut.tiled.unique member known
        (show fragment.first ≤ 0 ∧ 0 ≤ fragment.last from ⟨by omega, Nat.zero_le _⟩)
        ⟨by omega, Nat.zero_le _⟩
      rw [same]
    · rename_i notFirst
      rcases mem_append.mp there with old | new
      · exact received.proto other known old atStart
      · rw [mem_singleton.mp new] at atStart
        exact absurd atStart notFirst

end

theorem Received.assembled (complete : ¬ Incomplete reassembler.holes) :
    (sortHoles reassembler.holes).flatMap Hole.data = payload := by
  have slices : ∀ hole ∈ sortHoles reassembler.holes,
      hole.data = (payload.take (hole.last + 1)).drop hole.first := by
    intro hole member
    have inside : hole ∈ reassembler.holes := (perm_insertionSort _ _).mem_iff.mp member
    have filled : hole.filled = true := by
      cases filled : hole.filled with
      | true => rfl
      | false => exact absurd ⟨hole, inside, filled⟩ complete
    obtain ⟨fragment, known, _, first, last, data⟩ := received.source hole inside filled
    rw [data, cut.data fragment known, first, last]
  rw [received.sound.laid.sorted.flatMap_slices slices, drop_zero]
  exact take_of_length_le received.enough

end

end

/-- The states between two calls of `Process`: fragments are missing, or the packet has been
returned. -/
def Awaiting (payload : List Byte) (fragments arrived : List Fragment) (reassembler : Reassembler) : Prop :=
  (∃ fragment ∈ fragments, fragment ∉ arrived) ∧
      (∃ top, Received payload fragments arrived top reassembler) ∨
    (∀ fragment ∈ fragments, fragment ∈ arrived) ∧ reassembler.done = true

def Expected (payload : List Byte) (fragments arrived : List Fragment) (fragment : Fragment)
    (outcome : Outcome) : Prop :=
  ((∀ other ∈ fragments, other ∈ arrived) → outcome = .ignored) ∧
    ((∃ other ∈ fragments, other ∉ arrived) →
      ((∃ other ∈ fragments, other ∉ arrived ++ [fragment]) →
        ∃ memConsumed, outcome = .waiting memConsumed) ∧
      ((∀ other ∈ fragments, other ∈ arrived ++ [fragment]) →
        ∃ first ∈ fragments, first.first = 0 ∧
          ∃ memConsumed, outcome = .ready payload first.proto memConsumed))

theorem Received.deliver_finish {after : Reassembler} {memConsumed : Nat}
    (received : Received payload fragments (arrived ++ [fragment]) top after)
    (cut : Cut payload fragments) (absent : ∃ other ∈ fragments, other ∉ arrived)
    (processed : reassembler.process fragment = after.finish memConsumed) :
    Awaiting payload fragments (arrived ++ [fragment]) (reassembler.deliver fragment).1 ∧
      Expected payload fragments arrived fragment (reassembler.deliver fragment).2 := by
  have notAll : ¬ ∀ other ∈ fragments, other ∈ arrived := fun all => by
    obtain ⟨other, member, missing⟩ := absent
    exact missing (all other member)
  rcases received.sound.deliver_finish processed with
    ⟨incomplete, delivered⟩ | ⟨complete, done, ready⟩
  · have missing := (received.incomplete_iff cut).mp incomplete
    rw [delivered]
    refine ⟨.inl ⟨missing, top, received⟩, fun all => absurd all notAll, fun _ =>
      ⟨fun _ => ⟨memConsumed, rfl⟩, fun all => ?_⟩⟩
    obtain ⟨other, member, none⟩ := missing
    exact absurd (all other member) none
  have all : ∀ other ∈ fragments, other ∈ arrived ++ [fragment] := fun other member =>
    Classical.byContradiction fun none =>
      complete ((received.incomplete_iff cut).mpr ⟨other, member, none⟩)
  refine ⟨.inr ⟨all, done⟩, fun all => absurd all notAll, fun _ => ⟨fun missing => ?_, fun _ => ?_⟩⟩
  · obtain ⟨other, member, none⟩ := missing
    exact absurd (all other member) none
  · obtain ⟨first, member, starts, _⟩ := cut.tiled.covers (Nat.le_refl 0) (length_pos_iff.mpr cut.nonempty)
    have atStart : first.first = 0 := Nat.le_zero.mp starts
    refine ⟨first, member, atStart, memConsumed, ?_⟩
    rw [ready, received.assembled cut complete, received.proto first member (all first member) atStart]

section

variable (awaiting : Awaiting payload fragments arrived reassembler) (cut : Cut payload fragments)
include awaiting cut

theorem Awaiting.deliver (member : fragment ∈ fragments) :
    Awaiting payload fragments (arrived ++ [fragment]) (reassembler.deliver fragment).1 ∧
      Expected payload fragments arrived fragment (reassembler.deliver fragment).2 := by
  rcases awaiting with ⟨absent, top, received⟩ | ⟨all, done⟩
  · rcases Reassembler.process_cases received.sound.running fragment with
      ⟨_, ⟨hole, inside, touches, notRepeated, notAccepted⟩ | untouched⟩ |
      ⟨processed, repeated, _⟩ | ⟨index, gap, found, accepts, processed⟩
    · rcases received.touched cut member inside touches with repeats | accepts
      · exact absurd repeats notRepeated
      · exact absurd accepts notAccepted
    · have bounds := cut.bounds member
      have enough := received.enough
      obtain ⟨hole, inside, within⟩ := received.sound.laid.covers (show fragment.first ≤ top by omega)
      exact absurd ⟨by omega, within.2⟩ (untouched hole inside)
    · exact (received.repeated cut member repeated).deliver_finish cut absent processed
    · exact (received.fill cut member found accepts).deliver_finish cut absent processed
  · rw [Reassembler.deliver_done done]
    refine ⟨.inr ⟨fun other known => mem_append_left _ (all other known), done⟩, fun _ => rfl, fun absent => ?_⟩
    obtain ⟨other, known, missing⟩ := absent
    exact absurd (all other known) missing

theorem Awaiting.deliverAll {later : List Fragment}
    (members : ∀ fragment ∈ later, fragment ∈ fragments) :
    Awaiting payload fragments (arrived ++ later) (reassembler.deliverAll later) := by
  induction later generalizing reassembler arrived with
  | nil =>
    rw [append_nil]
    exact awaiting
  | cons fragment rest ih =>
    have first := (awaiting.deliver cut (members fragment mem_cons_self)).1
    have all := ih first (forall_mem_cons.mp members).2
    rw [append_assoc, singleton_append] at all
    exact all

end

theorem newReassembler_awaiting (cut : Cut payload fragments) : Awaiting payload fragments [] newReassembler := by
  refine .inl ⟨?_, maxUint16, newReassembler_sound, ?_, ?_, nofun⟩
  · obtain ⟨first, member, _⟩ := cut.tiled.covers (Nat.le_refl 0) (length_pos_iff.mpr cut.nonempty)
    exact ⟨first, member, nofun⟩
  · exact Nat.le_succ_of_le cut.short
  · simp [newReassembler]

structure Pieces (payload : List Byte) (size offset : Nat) (pieces : List Piece) : Prop where
  tiled : Tiles Piece.offset (fun piece => piece.offset + piece.data.length - 1) offset pieces payload.length
  data : ∀ piece ∈ pieces, piece.data ≠ [] ∧
    piece.data = (payload.take (piece.offset + piece.data.length)).drop piece.offset
  more : ∀ piece ∈ pieces,
    (piece.more = false ↔ piece.offset + piece.data.length = payload.length) ∧
      (piece.more = true → piece.data.length = size)

/-- The fragmenter's counters: there is a turn for each started block of what is left. -/
structure PacketFragmenter.OK (pf : PacketFragmenter) (payload : List Byte) : Prop where
  data : pf.data = payload.drop pf.fragmentOffset
  offset : pf.fragmentOffset < payload.length
  turns : pf.currentFragment < pf.fragmentCount
  enough : payload.length ≤ pf.fragmentOffset + (pf.fragmentCount - pf.currentFragment) * pf.fragmentPayloadLen
  needed : pf.fragmentOffset +
    (pf.fragmentCount - pf.currentFragment - 1) * pf.fragmentPayloadLen < payload.length

variable {pf : PacketFragmenter} {size : BitVec 32}

namespace PacketFragmenter

section

variable (ok : pf.OK payload)
include ok

theorem OK.positive : 0 < pf.fragmentPayloadLen := by
  refine Nat.pos_of_ne_zero fun zero => ?_
  have offset := ok.offset
  have enough := ok.enough
  rw [zero] at enough
  omega

theorem OK.copied :
    (pf.data.take pf.fragmentPayloadLen).length =
      min pf.fragmentPayloadLen (payload.length - pf.fragmentOffset) := by
  rw [length_take, ok.data, length_drop]

theorem OK.slice :
    pf.data.take pf.fragmentPayloadLen ≠ [] ∧
      pf.data.take pf.fragmentPayloadLen =
        (payload.take (pf.fragmentOffset + (pf.data.take pf.fragmentPayloadLen).length)).drop
          pf.fragmentOffset := by
  constructor
  · refine ne_nil_of_length_pos ?_
    have positive := ok.positive
    have offset := ok.offset
    rw [ok.copied]
    omega
  · rw [drop_take, Nat.add_sub_cancel_left, ok.data, length_take]
    rw [← take_eq_take_min]

theorem OK.next (notLast : pf.currentFragment + 1 ≠ pf.fragmentCount) :
    (pf.data.take pf.fragmentPayloadLen).length = pf.fragmentPayloadLen ∧
      OK
        { pf with
          data := pf.data.drop pf.fragmentPayloadLen
          fragmentOffset := pf.fragmentOffset + pf.fragmentPayloadLen
          currentFragment := pf.currentFragment + 1 } payload := by
  obtain ⟨data, offset, turns, enough, needed⟩ := ok
  obtain ⟨left, count⟩ : ∃ left, pf.fragmentCount = pf.currentFragment + 1 + (left + 1) :=
    ⟨pf.fragmentCount - pf.currentFragment - 2, by omega⟩
  have turn : pf.fragmentCount - pf.currentFragment = left + 1 + 1 := by omega
  have turnNext : pf.fragmentCount - (pf.currentFragment + 1) = left + 1 := by omega
  rw [turn] at enough needed
  rw [Nat.add_sub_cancel] at needed
  simp only [Nat.succ_mul] at enough needed
  refine ⟨?_, ?_, ?_, ?_, ?_, ?_⟩
  · rw [length_take, data, length_drop]
    omega
  · rw [data, drop_drop]
  · simp only
    omega
  · simp only
    omega
  · simp only [turnNext, Nat.succ_mul]
    omega
  · simp only [turnNext, Nat.add_sub_cancel]
    omega

theorem OK.pieces {fuel : Nat} (enough : pf.fragmentCount ≤ pf.currentFragment + fuel) :
    ∃ pieces, pf.pieces fuel = some pieces ∧
      Pieces payload pf.fragmentPayloadLen pf.fragmentOffset pieces := by
  induction fuel generalizing pf with
  | zero => exact absurd ok.turns (Nat.not_lt.mpr enough)
  | succ fuel ih =>
    have offset := ok.offset
    obtain ⟨some, slice⟩ := ok.slice
    simp only [PacketFragmenter.pieces, buildNextFragment, if_neg (Nat.not_le.mpr ok.turns)]
    by_cases isLast : pf.currentFragment + 1 = pf.fragmentCount
    · have ends : pf.fragmentOffset + (pf.data.take pf.fragmentPayloadLen).length =
          payload.length := by
        have enough := ok.enough
        rw [show pf.fragmentCount - pf.currentFragment = 1 by omega, Nat.one_mul] at enough
        rw [ok.copied]
        omega
      simp only [isLast, ne_eq, not_true_eq_false, decide_false, Bool.false_eq_true, if_false]
      refine ⟨_, rfl, ⟨rfl, ?_, ?_⟩, ?_, ?_⟩
      · simp only [ends]
        omega
      · simp only [ends, Tiles]
        omega
      · intro piece member
        rw [mem_singleton.mp member]
        exact ⟨some, slice⟩
      · intro piece member
        rw [mem_singleton.mp member]
        exact ⟨⟨fun _ => ends, fun _ => rfl⟩, fun more => (by cases more)⟩
    obtain ⟨full, nextOK⟩ := ok.next isLast
    have positive := ok.positive
    obtain ⟨others, rest, next⟩ := ih nextOK (by simp only; omega)
    have before := nextOK.offset
    simp only [isLast, ne_eq, not_false_eq_true, decide_true, if_true, full, rest, Option.map_some]
    simp only at next before
    refine ⟨_, rfl, ⟨rfl, ?_, ?_⟩, ?_, ?_⟩
    · simp only [full]
      omega
    · simp only [full]
      rw [show pf.fragmentOffset + pf.fragmentPayloadLen - 1 + 1 =
        pf.fragmentOffset + pf.fragmentPayloadLen by omega]
      exact next.tiled
    · intro piece member
      rcases mem_cons.mp member with rfl | other
      · exact ⟨some, slice⟩
      · exact next.data piece other
    · intro piece member
      rcases mem_cons.mp member with rfl | other
      · refine ⟨⟨fun last => (by cases last), fun ends => ?_⟩, fun _ => full⟩
        simp only [full] at ends
        omega
      · exact next.more piece other

end

end PacketFragmenter

theorem makePacketFragmenter_ok (short : payload.length ≤ maxUint16)
    (made : makePacketFragmenter payload size = some pf) (turns : 0 < pf.fragmentCount) :
    pf.OK payload ∧ pf.fragmentOffset = 0 ∧ pf.fragmentPayloadLen = size.toNat := by
  unfold makePacketFragmenter at made
  split at made
  · cases made
  rename_i nonzero
  cases made
  have positive : 0 < size.toNat := by
    refine Nat.pos_of_ne_zero fun zero => nonzero ?_
    exact BitVec.eq_of_toNat_eq zero
  simp only [maxUint16] at short
  have sum : (BitVec.ofNat 32 payload.length + size - 1).toNat =
      (2 ^ 32 - 1 + (payload.length + size.toNat) % 2 ^ 32) % 2 ^ 32 := by
    simp [BitVec.toNat_sub, BitVec.toNat_add]
  refine ⟨?_, rfl, rfl⟩
  simp only [BitVec.toNat_udiv, sum] at turns ⊢
  -- a sum that wraps around leaves less than one block
  have large : size.toNat ≤ (2 ^ 32 - 1 + (payload.length + size.toNat) % 2 ^ 32) % 2 ^ 32 :=
    Nat.le_of_not_lt fun small => by
      rw [Nat.div_eq_of_lt small] at turns
      exact Nat.lt_irrefl 0 turns
  have exact : (2 ^ 32 - 1 + (payload.length + size.toNat) % 2 ^ 32) % 2 ^ 32 =
      payload.length + size.toNat - 1 := by omega
  rw [exact] at turns large ⊢
  have split := Nat.div_add_mod (payload.length + size.toNat - 1) size.toNat
  have remainder := Nat.mod_lt (payload.length + size.toNat - 1) positive
  generalize (payload.length + size.toNat - 1) / size.toNat = count at turns split ⊢
  obtain ⟨count, rfl⟩ : ∃ before, count = before + 1 := ⟨count - 1, by omega⟩
  rw [Nat.mul_comm, Nat.succ_mul] at split
  refine ⟨rfl, by simp only; omega, Nat.succ_pos _, ?_, ?_⟩
  · simp only [Nat.sub_zero, Nat.succ_mul]
    omega
  · simp only [Nat.sub_zero, Nat.add_sub_cancel]
    omega

theorem fragmentPacket_pieces (short : payload.length ≤ maxUint16)
    (made : makePacketFragmenter payload size = some pf) (turns : 0 < pf.fragmentCount) :
    ∃ pieces, fragmentPacket payload size = some pieces ∧ Pieces payload size.toNat 0 pieces ∧
      payload ≠ [] := by
  obtain ⟨ok, start, length⟩ := makePacketFragmenter_ok short made turns
  have offset := ok.offset
  obtain ⟨pieces, done, pieced⟩ := ok.pieces (show _ ≤ _ + (pf.fragmentCount + 1) by omega)
  rw [start, length] at pieced
  refine ⟨pieces, ?_, pieced, ne_nil_of_length_pos (by omega)⟩
  rw [fragmentPacket, made]
  exact done

/-- What the fragmenter returns, sent with any protocol and headers, is a cut of the payload. -/
theorem fragmentPacket_cut {pieces : List Piece} (proto memSize : Nat)
    (aligned : 8 ∣ size.toNat) (short : payload.length ≤ maxUint16)
    (result : fragmentPacket payload size = some pieces) :
    Cut payload (pieces.map fun piece => piece.fragment proto memSize) := by
  cases made : makePacketFragmenter payload size with
  | none => simp [fragmentPacket, made] at result
  | some pf =>
    have turns : 0 < pf.fragmentCount := by
      refine Nat.pos_of_ne_zero fun zero => ?_
      simp [fragmentPacket, made, PacketFragmenter.pieces, PacketFragmenter.buildNextFragment, zero] at result
    obtain ⟨all, done, pieced, nonempty⟩ := fragmentPacket_pieces short made turns
    cases Option.some.inj (done.symm.trans result)
    have ends : ∀ piece ∈ pieces, (piece.fragment proto memSize).last + 1 =
        piece.offset + piece.data.length := by
      intro piece member
      have some := length_pos_iff.mpr (pieced.data piece member).1
      exact Nat.sub_add_cancel (by omega)
    refine ⟨tiles_map.mpr pieced.tiled, ?_, ?_, ?_, nonempty, short⟩
    · intro fragment member
      obtain ⟨piece, inside, rfl⟩ := mem_map.mp member
      rw [ends piece inside]
      exact (pieced.data piece inside).2
    · intro fragment member
      obtain ⟨piece, inside, rfl⟩ := mem_map.mp member
      rw [ends piece inside]
      exact (pieced.more piece inside).1
    · intro fragment member more
      obtain ⟨piece, inside, rfl⟩ := mem_map.mp member
      have whole := (pieced.more piece inside).2 more
      exact whole.symm ▸ aligned

/-- The count does not wrap and every piece has its turn. -/
theorem fragmentPacket_exists (short : payload.length ≤ maxUint16) (nonempty : payload ≠ [])
    (positive : 0 < size.toNat) (fits : payload.length + size.toNat ≤ 2 ^ 32) :
    ∃ pieces, fragmentPacket payload size = some pieces := by
  have some := length_pos_iff.mpr nonempty
  have nonzero : size ≠ 0 := by
    rintro rfl
    exact Nat.lt_irrefl 0 positive
  have sum : (BitVec.ofNat 32 payload.length + size - 1).toNat = payload.length + size.toNat - 1 := by
    have one : BitVec.toNat (1 : BitVec 32) = 1 := rfl
    simp only [BitVec.toNat_sub, BitVec.toNat_add, BitVec.toNat_ofNat, one]
    omega
  have turns : 0 < ((BitVec.ofNat 32 payload.length + size - 1) / size).toNat := by
    rw [BitVec.toNat_udiv, sum]
    exact Nat.div_pos (by omega) positive
  obtain ⟨pieces, done, _⟩ := fragmentPacket_pieces short (if_neg nonzero) turns
  exact ⟨pieces, done⟩

theorem Cut.checkArgs_none (cut : Cut payload fragments) (member : fragment ∈ fragments) :
    checkArgs 8 fragment = none := by
  have bounds := cut.bounds member
  have short := cut.short
  have length : ∀ other ∈ fragments, other.data.length = other.last + 1 - other.first := by
    intro other known
    have otherBounds := cut.bounds known
    rw [cut.data other known, length_drop, length_take]
    omega
  have aligned : 8 ∣ fragment.first := by
    refine cut.tiled.dvd_lo (Nat.dvd_zero 8) (fun other known notLast => ?_) member
    rw [← length other known]
    refine cut.sizes other known ?_
    cases more : other.more with
    | true => rfl
    | false => exact absurd ((cut.more other known).mp more) notLast
  have size : (fragment.last - fragment.first + 1) % 2 ^ 16 = fragment.data.length := by
    rw [length fragment member]
    simp only [maxUint16] at short
    omega
  unfold checkArgs
  simp only [size]
  rw [if_neg (by omega), if_neg (by omega), if_neg, if_neg (by simp)]
  rintro ⟨more, wrong⟩
  have := cut.sizes fragment member more
  omega

/-- Reassembly of a payload from its fragments, in any order and with copies: `Process` accepts
them all, and it returns the payload with the protocol of the first fragment when, and only when,
the last missing fragment arrives. What the fragmenter returns is such a set of fragments, and it
returns one whenever its count of the pieces does not wrap. A fragment that clashes with one that
has been accepted makes `Process` fail, and then no packet is returned. -/
theorem reassembly_correct :
    (∀ payload fragments, Cut payload fragments →
      ∀ arrived fragment, (∀ other ∈ arrived, other ∈ fragments) → fragment ∈ fragments →
        checkArgs 8 fragment = none ∧
          Expected payload fragments arrived fragment
            ((newReassembler.deliverAll arrived).deliver fragment).2) ∧
    (∀ payload size, 8 ∣ size.toNat → payload.length ≤ maxUint16 →
      (payload ≠ [] → 0 < size.toNat → payload.length + size.toNat ≤ 2 ^ 32 →
        ∃ pieces, fragmentPacket payload size = some pieces) ∧
      ∀ pieces, fragmentPacket payload size = some pieces →
        ∀ proto memSize, Cut payload (pieces.map fun piece => piece.fragment proto memSize)) ∧
    (∀ given fragment, (∀ other ∈ given, other.first ≤ other.last) →
      fragment.first ≤ fragment.last → (newReassembler.deliverAll given).done = false →
      (∃ accepted ∈ given, Clashes fragment accepted) →
        ∃ error, ((newReassembler.deliverAll given).deliver fragment).2 = .failed error ∧
          ∀ later next, ((((newReassembler.deliverAll given).deliver fragment).1.deliverAll
            later).deliver next).2 = .ignored) := by
  refine ⟨?_, ?_, ?_⟩
  · intro payload fragments cut arrived fragment members member
    have awaiting := (newReassembler_awaiting cut).deliverAll cut members
    rw [nil_append] at awaiting
    exact ⟨cut.checkArgs_none member, (awaiting.deliver cut member).2⟩
  · intro payload size aligned short
    exact ⟨fragmentPacket_exists short, fun pieces result proto memSize =>
      fragmentPacket_cut proto memSize aligned short result⟩
  · intro given fragment proper fragmentProper running clashing
    obtain ⟨accepted, earlier, clashes⟩ := clashing
    have isOpen := newReassembler_open.deliverAll proper
    rw [nil_append] at isOpen
    rcases isOpen with done | ⟨top, sound, _⟩
    · rw [running] at done
      cases done
    · obtain ⟨error, delivered⟩ := sound.clash_failed fragmentProper earlier clashes
      refine ⟨error, by rw [delivered], fun later next => ?_⟩
      rw [delivered, Reassembler.deliverAll_done rfl, Reassembler.deliver_done rfl]

def tenBytes : List Byte := [0, 1, 2, 3, 4, 5, 6, 7, 8, 9]

def tenBytesHead : Piece := { data := tenBytes.take 8, offset := 0, more := true }

def tenBytesTail : Piece := { data := [8, 9], offset := 8, more := false }

theorem reassembly_correct_tailFirst :
    Cut tenBytes ([tenBytesHead, tenBytesTail].map fun piece => piece.fragment 17 300) ∧
      ∃ memConsumed, ((newReassembler.deliverAll [tenBytesTail.fragment 17 300]).deliver
        (tenBytesHead.fragment 17 300)).2 = .ready tenBytes 17 memConsumed := by
  have cut := (reassembly_correct.2.1 tenBytes 8 (by decide) (by decide)).2
    [tenBytesHead, tenBytesTail] (by decide) 17 300
  obtain ⟨_, _, expected⟩ := reassembly_correct.1 tenBytes _ cut [tenBytesTail.fragment 17 300]
    (tenBytesHead.fragment 17 300) (by decide) (by decide)
  obtain ⟨first, member, _, memConsumed, ready⟩ := (expected (by decide)).2 (by decide)
  obtain ⟨piece, _, rfl⟩ := mem_map.mp member
  exact ⟨cut, memConsumed, ready⟩

end BVisor.Network
