import BVisor.Data.Intervals
import BVisor.Tcp.Scoreboard

/-! The scoreboard keeps its ranges apart and its counter right, as long as it is given ranges of the
window of unacknowledged data. Positions are counted from the first unacknowledged number. -/

namespace BVisor.Tcp

open Data Seqnum List SACKBlock SACKScoreboard Seqnum

variable {tree : OrderedTree SACKBlock} {s : SACKScoreboard tree} {una : Seqnum} {limit : Nat}
  {r sb : SACKBlock} {blocks : List SACKBlock}

def SACKBlock.lo (una : Seqnum) (block : SACKBlock) : Nat := offset una block.start

def SACKBlock.hi (una : Seqnum) (block : SACKBlock) : Nat := offset una block.stop

/-- The ranges lie apart in the first `limit` numbers from `una`, and the counter says how many
numbers they cover. -/
structure SACKScoreboard.Within (s : SACKScoreboard tree) (una : Seqnum) (limit : Nat) : Prop where
  near : limit < 2 ^ 31
  apart : Apart (SACKBlock.lo una) (SACKBlock.hi una) s.items
  bounded : ∀ block ∈ s.items, block.hi una ≤ limit
  counted : s.sacked.toNat = spanned (SACKBlock.lo una) (SACKBlock.hi una) s.items

theorem ranks_of_near (near : ∀ block ∈ blocks, block.lo una < 2 ^ 31) :
    Ranks sackBlockLess (lo una) blocks :=
  fun a memberA b memberB => lessThan_offset (near a memberA) (near b memberB)

theorem SACKBlock.size_toNat (ordered : r.lo una ≤ r.hi una) : r.size.toNat = r.hi una - r.lo una :=
  size_offset ordered

theorem SACKBlock.contains_offset (near : r.lo una < 2 ^ 31) (near' : r.hi una < 2 ^ 31)
    (nearSb : sb.lo una < 2 ^ 31) (nearSb' : sb.hi una < 2 ^ 31) :
    r.contains sb = true ↔ r.lo una ≤ sb.lo una ∧ sb.hi una ≤ r.hi una := by
  unfold contains
  rw [Bool.and_eq_true, lessThanEq_offset near nearSb, lessThanEq_offset nearSb' near',
    decide_eq_true_eq, decide_eq_true_eq]
  rfl

namespace SACKScoreboard.Within

variable (within : s.Within una limit)

include within

variable {block : SACKBlock}

theorem lo_lt_hi (member : block ∈ s.items) : block.lo una < block.hi una :=
  within.apart.nonempty block member

theorem hi_near (member : block ∈ s.items) : block.hi una < 2 ^ 31 :=
  Nat.lt_of_le_of_lt (within.bounded block member) within.near

theorem lo_near (member : block ∈ s.items) : block.lo una < 2 ^ 31 :=
  Nat.lt_trans (within.lo_lt_hi member) (within.hi_near member)

theorem ranks (near : r.lo una < 2 ^ 31) : Ranks sackBlockLess (lo una) (r :: s.items) := by
  apply ranks_of_near
  intro block member
  rcases mem_cons.mp member with rfl | member
  · exact near
  · exact within.lo_near member

theorem counted_le : spanned (lo una) (hi una) s.items ≤ limit := by
  have fits := within.apart.spanned_le (Nat.zero_le limit)
    fun block member => ⟨Nat.zero_le _, within.bounded block member⟩
  omega

end SACKScoreboard.Within

/-! Looking up a range. -/

/-- The blocks that an iteration down from `position` meets. -/
structure Visited (una : Seqnum) (position : Nat) (blocks : List SACKBlock) : Prop where
  below : ∀ block ∈ blocks, block.lo una ≤ position
  descending : blocks.Pairwise fun a b => b.hi una < a.lo una
  near : ∀ block ∈ blocks, block.lo una < block.hi una ∧ block.hi una < 2 ^ 31

theorem Visited.tail {position : Nat} (visited : Visited una position (sb :: blocks)) :
    Visited una (sb.lo una) blocks := by
  obtain ⟨gaps, descending⟩ := pairwise_cons.mp visited.descending
  have near := (forall_mem_cons.mp visited.near).2
  refine ⟨fun block member => ?_, descending, near⟩
  exact Nat.le_of_lt (Nat.lt_trans (near block member).1 (gaps block member))

theorem SACKScoreboard.Within.visits (within : s.Within una limit) (lawful : tree.Lawful sackBlockLess)
    (near : r.lo una < 2 ^ 31) :
    Visited una (r.lo una) (tree.descendLessOrEqual s.ranges r) ∧
      ∀ block, block ∈ tree.descendLessOrEqual s.ranges r ↔
        block ∈ s.items ∧ block.lo una ≤ r.lo una := by
  rw [lawful.descends s.ranges r (lo una) (within.ranks near) within.apart.ascending]
  have members : ∀ block, block ∈ (s.items.filter fun item => item.lo una ≤ r.lo una).reverse ↔
      block ∈ s.items ∧ block.lo una ≤ r.lo una := by
    intro block
    rw [mem_reverse, mem_filter, decide_eq_true_eq]
  refine ⟨⟨fun block member => ((members block).mp member).2,
    pairwise_reverse.mpr (within.apart.separated.filter _), fun block member => ?_⟩, members⟩
  have inItems := ((members block).mp member).1
  exact ⟨within.lo_lt_hi inItems, within.hi_near inItems⟩

theorem coveredBy_iff {position : Nat} (visited : Visited una position blocks)
    (below : ∀ block ∈ blocks, block.lo una ≤ r.lo una)
    (ordered : r.lo una ≤ r.hi una) (nearR : r.hi una < 2 ^ 31) :
    coveredBy r blocks = true ↔
      ∃ block ∈ blocks, block.lo una ≤ r.lo una ∧ r.hi una ≤ block.hi una := by
  induction blocks generalizing position with
  | nil => simp [coveredBy]
  | cons sacked rest ih =>
    obtain ⟨belowHead, belowRest⟩ := forall_mem_cons.mp below
    obtain ⟨nonempty, nearHead⟩ := visited.near sacked mem_cons_self
    have startR : r.lo una < 2 ^ 31 := Nat.lt_of_le_of_lt ordered nearR
    have before : lessThan sacked.stop r.start = decide (sacked.hi una < r.lo una) :=
      lessThan_offset nearHead startR
    have holds := contains_offset (Nat.lt_trans nonempty nearHead) nearHead startR nearR
    simp only [coveredBy, before, decide_eq_true_eq]
    by_cases ends : sacked.hi una < r.lo una
    · rw [if_pos ends]
      simp only [Bool.false_eq_true, false_iff, not_exists, not_and]
      intro block member _ reaches
      rcases mem_cons.mp member with rfl | member
      · omega
      · have := rel_of_pairwise_cons visited.descending member
        omega
    rw [if_neg ends]
    by_cases covers : sacked.contains r = true
    · rw [if_pos covers]
      exact ⟨fun _ => ⟨sacked, mem_cons_self, holds.mp covers⟩, fun _ => rfl⟩
    rw [if_neg covers, ih visited.tail belowRest]
    constructor
    · rintro ⟨block, member, bounds⟩
      exact ⟨block, mem_cons_of_mem sacked member, bounds⟩
    · rintro ⟨block, member, bounds⟩
      rcases mem_cons.mp member with rfl | member
      · exact absurd (holds.mpr bounds) covers
      · exact ⟨block, member, bounds⟩

theorem isSACKED_iff (lawful : tree.Lawful sackBlockLess) (within : s.Within una limit)
    (ordered : r.lo una ≤ r.hi una) (near : r.hi una < 2 ^ 31) :
    s.isSACKED r = true ↔
      ∃ block ∈ s.items, block.lo una ≤ r.lo una ∧ r.hi una ≤ block.hi una := by
  obtain ⟨visited, members⟩ := within.visits lawful (Nat.lt_of_le_of_lt ordered near)
  have covered : coveredBy r (tree.descendLessOrEqual s.ranges r) = true ↔
      ∃ block ∈ s.items, block.lo una ≤ r.lo una ∧ r.hi una ≤ block.hi una := by
    rw [coveredBy_iff visited visited.below ordered near]
    constructor
    · rintro ⟨block, member, bounds⟩
      exact ⟨block, ((members block).mp member).1, bounds⟩
    · rintro ⟨block, member, bounds⟩
      exact ⟨block, (members block).mpr ⟨member, bounds.1⟩, bounds⟩
  unfold isSACKED empty
  rw [Bool.and_eq_true, covered]
  constructor
  · exact And.right
  · rintro ⟨block, member, bounds⟩
    refine ⟨?_, block, member, bounds⟩
    have := length_pos_of_mem member
    rw [Bool.not_eq_true', decide_eq_false_iff_not]
    omega

/-! Deleting blocks. -/

/-- No other block starts where this one does. -/
def SACKScoreboard.Knows (s : SACKScoreboard tree) (una : Seqnum) (sb : SACKBlock) : Prop :=
  sb.lo una < 2 ^ 31 ∧ ∀ block ∈ s.items, block.lo una = sb.lo una → block = sb

theorem SACKScoreboard.Within.knows (within : s.Within una limit) (member : sb ∈ s.items) : s.Knows una sb :=
  ⟨within.lo_near member, fun _ other same => within.apart.ascending.eq_of_rank other member same⟩

theorem remove_within (lawful : tree.Lawful sackBlockLess) (within : s.Within una limit)
    (knows : s.Knows una sb) :
    (s.remove sb).Within una limit ∧
      (s.remove sb).items = s.items.filter fun block => block.lo una ≠ sb.lo una := by
  obtain ⟨left, found⟩ := lawful.deletes s.ranges sb (lo una)
    (within.ranks knows.1) within.apart.ascending
  change (s.remove sb).items = _ at left
  refine ⟨⟨within.near, ?_, ?_, ?_⟩, left⟩
  · rw [left]
    exact within.apart.filter _
  · intro block inLeft
    rw [left] at inLeft
    exact within.bounded block (mem_filter.mp inLeft).1
  · rw [left]
    cases present : (tree.delete s.ranges sb).2 with
    | true =>
      rw [found, any_eq_true] at present
      obtain ⟨block, member, same⟩ := present
      obtain rfl := knows.2 block member (of_decide_eq_true same)
      have smaller := within.apart.spanned_remove member
      have fits := within.counted_le
      have near := within.near
      have counted := within.counted
      have size : block.size.toNat = block.hi una - block.lo una :=
        size_toNat (Nat.le_of_lt (within.lo_lt_hi member))
      have deleted : (tree.delete s.ranges block).2 = true := by
        rw [found]
        exact any_eq_true.mpr ⟨block, member, decide_eq_true rfl⟩
      simp only [remove, deleted, if_true, BitVec.toNat_sub, size, counted]
      simp only [items] at smaller fits ⊢
      omega
    | false =>
      have absent : ∀ block ∈ s.items, block.lo una ≠ sb.lo una := by
        intro block member same
        rw [found, ← Bool.not_eq_true, any_eq_true] at present
        exact present ⟨block, member, decide_eq_true same⟩
      have unchanged : (tree.items s.ranges).filter (fun block => block.lo una ≠ sb.lo una) =
          s.items := filter_eq_self.mpr fun block member => decide_eq_true (absent block member)
      simp only [remove, present]
      rw [unchanged]
      exact within.counted

variable {toDelete : List SACKBlock}

theorem removeAll_within (lawful : tree.Lawful sackBlockLess) (within : s.Within una limit) (knows : ∀ block ∈ toDelete, s.Knows una block) :
    (toDelete.foldl remove s).Within una limit ∧
      ∀ block, block ∈ (toDelete.foldl remove s).items ↔
        block ∈ s.items ∧ block ∉ toDelete := by
  induction toDelete generalizing s with
  | nil => exact ⟨within, fun block => by simp⟩
  | cons sb rest ih =>
    have knowsSb := knows sb mem_cons_self
    obtain ⟨removed, left⟩ := remove_within lawful within knowsSb
    have knowsRest : ∀ block ∈ rest, (s.remove sb).Knows una block := by
      intro block member
      have known := knows block (mem_cons_of_mem sb member)
      refine ⟨known.1, fun other inLeft => known.2 other ?_⟩
      rw [left] at inLeft
      exact (mem_filter.mp inLeft).1
    obtain ⟨done, members⟩ := ih removed knowsRest
    refine ⟨done, fun block => ?_⟩
    rw [foldl_cons, members, left, mem_filter, decide_eq_true_eq, mem_cons]
    constructor
    · rintro ⟨⟨member, differs⟩, notRest⟩
      refine ⟨member, ?_⟩
      rintro (rfl | inRest)
      · exact differs rfl
      · exact notRest inRest
    · rintro ⟨member, notDeleted⟩
      refine ⟨⟨member, fun same => notDeleted (.inl (knowsSb.2 block member same))⟩, ?_⟩
      exact fun inRest => notDeleted (.inr inRest)

/-! Merging a new range with those that it touches. -/

/-- A pass of `Insert` grows the new range over some of the blocks it visits. -/
structure Grown (una : Seqnum) (r : SACKBlock) (blocks : List SACKBlock)
    (pass : SACKBlock × List SACKBlock) : Prop where
  grows : r.hi una ≤ pass.1.hi una
  reaches : pass.1.hi una = r.hi una ∨ ∃ block ∈ pass.2, pass.1.hi una = block.hi una
  members : ∀ block ∈ pass.2, block ∈ blocks

theorem Grown.none : Grown una r blocks (r, []) :=
  ⟨Nat.le_refl _, .inl rfl, fun _ member => (nomatch member)⟩

variable {pass : SACKBlock × List SACKBlock}

theorem Grown.cons {first : SACKBlock} (grown : Grown una first blocks pass) (longer : r.hi una ≤ first.hi una)
    (source : first.hi una = r.hi una ∨ first.hi una = sb.hi una) :
    Grown una r (sb :: blocks) (pass.1, sb :: pass.2) := by
  refine ⟨Nat.le_trans longer grown.grows, ?_, ?_⟩
  · rcases grown.reaches with same | ⟨block, member, same⟩
    · rcases source with ofR | ofSb
      · exact .inl (same.trans ofR)
      · exact .inr ⟨sb, mem_cons_self, same.trans ofSb⟩
    · exact .inr ⟨block, mem_cons_of_mem sb member, same⟩
  · intro block member
    rcases mem_cons.mp member with rfl | member
    · exact mem_cons_self
    · exact mem_cons_of_mem sb (grown.members block member)

theorem kept_cons {pass : List SACKBlock} {P : SACKBlock → Prop}
    (rests : ∀ block ∈ blocks, block ∉ pass → P block) :
    ∀ block ∈ sb :: blocks, block ∉ sb :: pass → P block := by
  intro block member kept
  rcases mem_cons.mp member with rfl | member
  · exact absurd mem_cons_self kept
  · exact rests block member fun deleted => kept (mem_cons_of_mem sb deleted)

theorem ascendMerge_spec (una : Seqnum) (blocks : List SACKBlock)
    (above : ∀ block ∈ blocks, r.lo una ≤ block.lo una)
    (apart : Apart (lo una) (hi una) blocks)
    (near : ∀ block ∈ blocks, block.hi una < 2 ^ 31) (ordered : r.lo una < r.hi una) (nearR : r.hi una < 2 ^ 31)
    (fresh : ∀ block ∈ blocks, block.lo una = r.lo una → block.hi una < r.hi una) :
    Grown una r blocks (ascendMerge r blocks) ∧
    (ascendMerge r blocks).1.start = r.start ∧
    ∀ block ∈ blocks, block ∉ (ascendMerge r blocks).2 → (ascendMerge r blocks).1.hi una < block.lo una := by
  induction blocks generalizing r with
  | nil => exact ⟨.none, rfl, fun _ member => (nomatch member)⟩
  | cons sacked rest ih =>
    have gaps : ∀ block ∈ rest, sacked.hi una < block.lo una := (pairwise_cons.mp apart.separated).1
    have aboveHead := above sacked mem_cons_self
    have orderedHead : sacked.lo una < sacked.hi una := apart.nonempty sacked mem_cons_self
    have nearHead := near sacked mem_cons_self
    have aboveRest : ∀ block ∈ rest, r.lo una ≤ block.lo una :=
      (forall_mem_cons.mp above).2
    have nearRest : ∀ block ∈ rest, block.hi una < 2 ^ 31 :=
      (forall_mem_cons.mp near).2
    have hole : lessThan r.stop sacked.start = decide (r.hi una < sacked.lo una) :=
      lessThan_offset nearR (Nat.lt_trans orderedHead nearHead)
    have contained : lessThan sacked.stop r.stop = decide (sacked.hi una < r.hi una) :=
      lessThan_offset nearHead nearR
    have differs : sacked ≠ r := by
      rintro rfl
      exact Nat.lt_irrefl _ (fresh sacked mem_cons_self rfl)
    simp only [ascendMerge, if_neg differs, hole, contained, decide_eq_true_eq]
    by_cases beyond : r.hi una < sacked.lo una
    · rw [if_pos beyond]
      refine ⟨.none, rfl, fun block member _ => ?_⟩
      rcases mem_cons.mp member with rfl | member
      · exact beyond
      · have gap := gaps block member
        exact Nat.lt_trans beyond (Nat.lt_trans orderedHead gap)
    rw [if_neg beyond]
    by_cases shorter : sacked.hi una < r.hi una
    · rw [if_pos shorter]
      obtain ⟨grown, start, rests⟩ := ih aboveRest apart.tail nearRest ordered nearR
        (forall_mem_cons.mp fresh).2
      exact ⟨grown.cons (Nat.le_refl _) (.inl rfl), start, kept_cons rests⟩
    rw [if_neg shorter]
    have longer := Nat.not_lt.mp shorter
    -- Later blocks start after the grown range, so none of them starts with it.
    have freshRest : ∀ block ∈ rest, block.lo una = r.lo una →
        block.hi una < sacked.hi una := by
      intro block member same
      have gap := gaps block member
      omega
    obtain ⟨grown, start, rests⟩ := ih (r := ⟨r.start, sacked.stop⟩) aboveRest apart.tail
      nearRest (Nat.lt_of_lt_of_le ordered longer) nearHead freshRest
    exact ⟨grown.cons longer (.inr rfl), start, kept_cons rests⟩

theorem descendMerge_spec (visited : Visited una (r.lo una) blocks)
    (ordered : r.lo una < r.hi una) (nearR : r.hi una < 2 ^ 31)
    (fresh : ∀ block ∈ blocks, block.lo una = r.lo una → block.hi una < r.hi una) :
    Grown una r blocks (descendMerge r blocks) ∧
    (descendMerge r blocks).1.lo una ≤ r.lo una ∧
    ∀ block ∈ blocks, block ∉ (descendMerge r blocks).2 →
      block.hi una < (descendMerge r blocks).1.lo una := by
  induction blocks generalizing r with
  | nil => exact ⟨.none, Nat.le_refl _, fun _ member => (nomatch member)⟩
  | cons sacked rest ih =>
    obtain ⟨nonempty, nearHead⟩ := visited.near sacked mem_cons_self
    have belowHead := visited.below sacked mem_cons_self
    have gaps : ∀ block ∈ rest, block.hi una < sacked.lo una :=
      fun block member => rel_of_pairwise_cons visited.descending member
    have before : lessThan sacked.stop r.start = decide (sacked.hi una < r.lo una) :=
      lessThan_offset nearHead (Nat.lt_trans ordered nearR)
    have beyond : lessThan r.stop sacked.stop = decide (r.hi una < sacked.hi una) :=
      lessThan_offset nearR nearHead
    have differs : sacked ≠ r := by
      rintro rfl
      exact Nat.lt_irrefl _ (fresh sacked mem_cons_self rfl)
    simp only [descendMerge, if_neg differs, before, beyond, decide_eq_true_eq]
    by_cases ends : sacked.hi una < r.lo una
    · rw [if_pos ends]
      refine ⟨.none, Nat.le_refl _, fun block member _ => ?_⟩
      rcases mem_cons.mp member with rfl | member
      · exact ends
      · exact Nat.lt_trans (gaps block member) (Nat.lt_trans nonempty ends)
    rw [if_neg ends]
    have freshRest : ∀ stop : Nat, ∀ block ∈ rest, block.lo una = sacked.lo una →
        block.hi una < stop := by
      intro stop block member same
      have gap := gaps block member
      have nonempty := (visited.tail.near block member).1
      omega
    by_cases longer : r.hi una < sacked.hi una
    · rw [if_pos longer]
      obtain ⟨grown, start, rests⟩ := ih (r := ⟨sacked.start, sacked.stop⟩) visited.tail
        nonempty nearHead (freshRest _)
      exact ⟨grown.cons (Nat.le_of_lt longer) (.inr rfl),
        Nat.le_trans start belowHead, kept_cons rests⟩
    · rw [if_neg longer]
      obtain ⟨grown, start, rests⟩ := ih (r := ⟨sacked.start, r.stop⟩) visited.tail
        (Nat.lt_of_le_of_lt belowHead ordered) nearR (freshRest _)
      exact ⟨grown.cons (Nat.le_refl _) (.inl rfl), Nat.le_trans start belowHead, kept_cons rests⟩

theorem place_within (lawful : tree.Lawful sackBlockLess) (within : s.Within una limit)
    (ordered : r.lo una < r.hi una) (bounded : r.hi una ≤ limit)
    (untouched : ∀ block ∈ s.items, block.hi una < r.lo una ∨ r.hi una < block.lo una) :
    (tree.replaceOrInsert s.ranges r).2 = false ∧
    { s with ranges := (tree.replaceOrInsert s.ranges r).1
             sacked := s.sacked + r.size : SACKScoreboard tree }.Within una limit := by
  have near := within.near
  obtain ⟨placed, found⟩ := lawful.inserts s.ranges r (lo una)
    (within.ranks (by omega)) within.apart.ascending
  have fresh : ∀ block ∈ s.items, block.lo una ≠ r.lo una := by
    intro block member same
    have nonempty := within.lo_lt_hi member
    rcases untouched block member with below | above <;> omega
  have apart := within.apart.insertRanked ordered untouched
  have bounds : ∀ block ∈ insertRanked (lo una) r s.items, block.hi una ≤ limit := by
    intro block member
    rcases mem_insertRanked.mp member with rfl | ⟨member, _⟩
    · exact bounded
    · exact within.bounded block member
  have larger : spanned (lo una) (hi una)
      (insertRanked (lo una) r s.items) =
      spanned (lo una) (hi una) s.items + (r.hi una - r.lo una) :=
    spanned_insertRanked fresh
  have fits := apart.spanned_le (Nat.zero_le limit) fun block member => ⟨Nat.zero_le _, bounds block member⟩
  change tree.items (tree.replaceOrInsert s.ranges r).1 = insertRanked (lo una) r s.items at placed
  refine ⟨?_, near, ?_, ?_, ?_⟩
  · rw [found, any_eq_false]
    exact fun block member same => fresh block member (of_decide_eq_true same)
  · show Apart _ _ (tree.items (tree.replaceOrInsert s.ranges r).1)
    rw [placed]
    exact apart
  · show ∀ block ∈ tree.items (tree.replaceOrInsert s.ranges r).1, block.hi una ≤ limit
    rw [placed]
    exact bounds
  · show (s.sacked + r.size).toNat = spanned _ _ (tree.items (tree.replaceOrInsert s.ranges r).1)
    have size : r.size.toNat = r.hi una - r.lo una := size_toNat (Nat.le_of_lt ordered)
    rw [larger] at fits
    rw [placed, larger, BitVec.toNat_add, within.counted, size]
    omega

theorem Grown.bounded (grown : Grown una r s.items pass)
    (within : s.Within una limit) (bounded : r.hi una ≤ limit) : pass.1.hi una ≤ limit := by
  rcases grown.reaches with same | ⟨block, member, same⟩
  · rw [same]
    exact bounded
  · rw [same]
    exact within.bounded block (grown.members block member)

theorem Grown.mono {more : List SACKBlock}
    (grown : Grown una r blocks pass) (subset : ∀ block ∈ blocks, block ∈ more) :
    Grown una r more pass :=
  ⟨grown.grows, grown.reaches, fun block member => subset block (grown.members block member)⟩

section Passes

variable (lawful : tree.Lawful sackBlockLess) (within : s.Within una limit)
  (ordered : r.lo una < r.hi una) (bounded : r.hi una ≤ limit)
  (fresh : ∀ block ∈ s.items, block.lo una = r.lo una → block.hi una < r.hi una)

include lawful within ordered bounded fresh

theorem ascend_pass :
    Grown una r s.items (ascendMerge r (tree.ascendGreaterOrEqual s.ranges r)) ∧
    (ascendMerge r (tree.ascendGreaterOrEqual s.ranges r)).1.start = r.start ∧
    ∀ block ∈ s.items, r.lo una ≤ block.lo una →
      block ∉ (ascendMerge r (tree.ascendGreaterOrEqual s.ranges r)).2 →
      (ascendMerge r (tree.ascendGreaterOrEqual s.ranges r)).1.hi una < block.lo una := by
  have near := within.near
  rw [lawful.ascends s.ranges r (lo una) (within.ranks (by omega)) within.apart.ascending]
  obtain ⟨grown, start, kept⟩ := ascendMerge_spec una
    (s.items.filter fun item => r.lo una ≤ item.lo una)
    (fun block member => by simpa using (mem_filter.mp member).2)
    (within.apart.filter _)
    (fun block member => within.hi_near (mem_filter.mp member).1) ordered (by omega)
    fun block member => fresh block (mem_filter.mp member).1
  refine ⟨grown.mono fun block member => (mem_filter.mp member).1, start, ?_⟩
  intro block member above
  exact kept block (mem_filter.mpr ⟨member, decide_eq_true above⟩)

theorem descend_pass :
    Grown una r s.items (descendMerge r (tree.descendLessOrEqual s.ranges r)) ∧
    (descendMerge r (tree.descendLessOrEqual s.ranges r)).1.lo una ≤ r.lo una ∧
    (∀ block ∈ (descendMerge r (tree.descendLessOrEqual s.ranges r)).2,
      block.lo una ≤ r.lo una) ∧
    ∀ block ∈ s.items, block.lo una ≤ r.lo una →
      block ∉ (descendMerge r (tree.descendLessOrEqual s.ranges r)).2 →
      block.hi una < (descendMerge r (tree.descendLessOrEqual s.ranges r)).1.lo una := by
  have near := within.near
  obtain ⟨visited, members⟩ := within.visits lawful (r := r) (by omega)
  obtain ⟨grown, start, kept⟩ := descendMerge_spec visited ordered (by omega)
    fun block member => fresh block ((members block).mp member).1
  refine ⟨grown.mono fun block member => ((members block).mp member).1, start,
    fun block member => visited.below block (grown.members block member), ?_⟩
  intro block member below
  exact kept block ((members block).mpr ⟨member, below⟩)

end Passes

theorem insert_within (lawful : tree.Lawful sackBlockLess) (within : s.Within una limit)
    (ordered : r.lo una < r.hi una) (bounded : r.hi una ≤ limit) (isNew : s.isSACKED r = false) :
    (s.insert r).Within una limit := by
  have near := within.near
  have fresh : ∀ block ∈ s.items, block.lo una = r.lo una → block.hi una < r.hi una := by
    intro block member same
    apply Nat.not_le.mp
    intro longer
    have covered := (isSACKED_iff lawful within (Nat.le_of_lt ordered) (by omega)).mpr
      ⟨block, member, Nat.le_of_eq same, longer⟩
    rw [isNew] at covered
    cases covered
  by_cases full : s.items.length ≥ maxSACKBlocks
  · rw [SACKScoreboard.insert, if_pos full]
    exact within
  rw [SACKScoreboard.insert, if_neg full]
  obtain ⟨grownUp, start, keptUp⟩ := ascend_pass lawful within ordered bounded fresh
  generalize ascendMerge r (tree.ascendGreaterOrEqual s.ranges r) = up at grownUp start keptUp ⊢
  obtain ⟨above, fromAbove⟩ := up
  dsimp only at start keptUp ⊢
  have startUp : above.lo una = r.lo una := congrArg (offset una) start
  have growsUp : r.hi una ≤ above.hi una := grownUp.grows
  have boundedUp : above.hi una ≤ limit := grownUp.bounded within bounded
  obtain ⟨grownDown, startDown, visitedDown, keptDown⟩ := descend_pass lawful within
    (r := above) (by omega) boundedUp fun block member same =>
      Nat.lt_of_lt_of_le (fresh block member (same.trans startUp)) growsUp
  generalize descendMerge above (tree.descendLessOrEqual s.ranges above) = down
    at grownDown startDown visitedDown keptDown ⊢
  obtain ⟨merged, fromBelow⟩ := down
  dsimp only at startDown visitedDown keptDown ⊢
  have growsDown : above.hi una ≤ merged.hi una := grownDown.grows
  have known : ∀ block ∈ fromAbove ++ fromBelow, s.Knows una block := by
    intro block member
    rcases mem_append.mp member with inAbove | inBelow
    · exact within.knows (grownUp.members block inAbove)
    · exact within.knows (grownDown.members block inBelow)
  obtain ⟨cleared, left⟩ := removeAll_within lawful within known
  -- What is left after the deletions does not touch the merged range.
  have untouched : ∀ block ∈ ((fromAbove ++ fromBelow).foldl remove s).items,
      block.hi una < merged.lo una ∨ merged.hi una < block.lo una := by
    intro block member
    obtain ⟨inItems, kept⟩ := (left block).mp member
    rw [mem_append, not_or] at kept
    by_cases after : r.lo una ≤ block.lo una
    · right
      have beyond := keptUp block inItems after kept.1
      rcases grownDown.reaches with same | ⟨lower, inBelow, same⟩
      · exact Nat.lt_of_le_of_lt (Nat.le_of_eq same) beyond
      have below := visitedDown lower inBelow
      have inItems' := grownDown.members lower inBelow
      show merged.hi una < block.lo una
      rw [same]
      exact within.apart.gap inItems' inItems (fun sameBlock => kept.2 (sameBlock ▸ inBelow))
        (Nat.le_trans below (startUp ▸ after))
    · left
      exact keptDown block inItems (by omega) kept.2
  have orderedDown : merged.lo una < merged.hi una := by omega
  obtain ⟨notReplaced, placed⟩ := place_within lawful cleared orderedDown
    (grownDown.bounded within boundedUp) untouched
  rw [notReplaced]
  exact ⟨placed.near, placed.apart, placed.bounded, placed.counted⟩

/-! Forgetting what the peer has acknowledged. -/

def totalSize (blocks : List SACKBlock) : BitVec 32 :=
  blocks.foldr (fun block rest => block.size + rest) 0

def SACKBlock.after (seq : Seqnum) (sb : SACKBlock) : SACKBlock := ⟨seq, sb.stop⟩

theorem deleteScan_spec (seq : Seqnum) (r : SACKBlock) (blocks : List SACKBlock) (sacked : BitVec 32) :
    (deleteScan seq r blocks sacked).1 = blocks.filter (fun sb => sb ≠ r) ∧
    (deleteScan seq r blocks sacked).2.1 =
      (blocks.filter fun sb => sb ≠ r ∧ Seqnum.lessThanEq sb.stop seq = false).map (SACKBlock.after seq) ∧
    (deleteScan seq r blocks sacked).2.2 + totalSize (deleteScan seq r blocks sacked).1 =
      sacked + totalSize (deleteScan seq r blocks sacked).2.1 := by
  induction blocks generalizing sacked with
  | nil => exact ⟨rfl, rfl, rfl⟩
  | cons sb rest ih =>
    simp only [deleteScan]
    by_cases same : sb = r
    · rw [if_pos same, filter_cons_of_neg (by simp [same]), filter_cons_of_neg (by simp [same])]
      exact ih sacked
    rw [if_neg same, filter_cons_of_pos (by simp [same])]
    by_cases ends : Seqnum.lessThanEq sb.stop seq = true
    · obtain ⟨deletes, inserts, counts⟩ := ih (sacked - sb.size)
      rw [if_pos ends, filter_cons_of_neg (by simp [ends])]
      refine ⟨congrArg (sb :: ·) deletes, inserts, ?_⟩
      simp only [totalSize, foldr_cons] at counts ⊢
      grind
    obtain ⟨deletes, inserts, counts⟩ := ih (sacked - Seqnum.size sb.start seq)
    rw [if_neg ends, filter_cons_of_pos (by simp [same, ends]), map_cons]
    refine ⟨congrArg (sb :: ·) deletes, congrArg (sb.after seq :: ·) inserts, ?_⟩
    simp only [totalSize, foldr_cons] at counts ⊢
    have split : sb.size = Seqnum.size sb.start seq + SACKBlock.size ⟨seq, sb.stop⟩ := by
      simp only [SACKBlock.size, Seqnum.size]
      grind
    rw [split]
    generalize SACKBlock.size ⟨seq, sb.stop⟩ = rest at split ⊢
    clear ih deletes inserts
    grind

theorem removeAll_counts (lawful : tree.Lawful sackBlockLess) (within : s.Within una limit) (members : ∀ block ∈ toDelete, block ∈ s.items)
    (distinct : toDelete.Pairwise fun a b => a.lo una ≠ b.lo una) :
    (toDelete.foldl remove s).sacked + totalSize toDelete = s.sacked ∧
    (toDelete.foldl remove s).ranges =
      toDelete.foldl (fun ranges sb => (tree.delete ranges sb).1) s.ranges := by
  induction toDelete generalizing s with
  | nil => exact ⟨BitVec.add_zero _, rfl⟩
  | cons sb rest ih =>
    obtain ⟨others, distinctRest⟩ := pairwise_cons.mp distinct
    have member := members sb mem_cons_self
    have knows := within.knows member
    obtain ⟨removed, left⟩ := remove_within lawful within knows
    have membersRest : ∀ block ∈ rest, block ∈ (s.remove sb).items := by
      intro block inRest
      rw [left, mem_filter, decide_eq_true_eq]
      exact ⟨members block (mem_cons_of_mem sb inRest), (others block inRest).symm⟩
    obtain ⟨counts, ranges⟩ := ih removed membersRest distinctRest
    refine ⟨?_, ranges⟩
    obtain ⟨_, found⟩ := lawful.deletes s.ranges sb (lo una)
      (within.ranks knows.1) within.apart.ascending
    have present : (tree.delete s.ranges sb).2 = true := by
      rw [found]
      exact any_eq_true.mpr ⟨sb, member, decide_eq_true rfl⟩
    have subtracted : (s.remove sb).sacked = s.sacked - sb.size := by
      simp only [remove, present, if_true]
    rw [subtracted] at counts
    simp only [totalSize, foldr_cons, foldl_cons] at counts ⊢
    grind

variable {seq : Seqnum}

theorem SACKScoreboard.Within.rebase (within : s.Within una limit) (inside : offset una seq ≤ limit)
    (after : ∀ block ∈ s.items, offset una seq ≤ block.lo una) :
    s.Within seq (limit - offset una seq) := by
  have near := within.near
  have lo : ∀ block ∈ s.items, block.lo seq = block.lo una - offset una seq :=
    fun block member => offset_rebase (after block member)
  have hi : ∀ block ∈ s.items, block.hi seq = block.hi una - offset una seq :=
    fun block member => offset_rebase (Nat.le_trans (after block member) (Nat.le_of_lt (within.lo_lt_hi member)))
  refine ⟨by omega, ⟨?_, ?_⟩, ?_, ?_⟩
  · intro block member
    have nonempty := within.lo_lt_hi member
    have bound := after block member
    rw [lo block member, hi block member]
    omega
  · apply within.apart.separated.imp_of_mem
    intro a b memberA memberB gap
    have nonempty := within.lo_lt_hi memberA
    have bound := after a memberA
    rw [hi a memberA, lo b memberB]
    omega
  · intro block member
    have bound := within.bounded block member
    rw [hi block member]
    omega
  · rw [within.counted]
    unfold spanned
    apply congrArg List.sum
    apply map_congr_left
    intro block member
    have bound := after block member
    rw [lo block member, hi block member]
    omega

theorem SACKScoreboard.Within.congr {other : SACKScoreboard tree} (within : s.Within una limit)
    (ranges : other.ranges = s.ranges) (sacked : other.sacked = s.sacked) :
    other.Within una limit := by
  have items : other.items = s.items := congrArg tree.items ranges
  exact ⟨within.near, items ▸ within.apart, items ▸ within.bounded, by rw [items, sacked]; exact within.counted⟩

theorem straddling_alone {position : Nat} (keep : SACKBlock → Bool)
    (visited : Visited una position blocks)
    (reach : ∀ block ∈ blocks, keep block = true → position < block.hi una) :
    blocks.filter keep = [] ∨ ∃ block ∈ blocks, keep block = true ∧
      blocks.filter keep = [block] := by
  have kept : ∀ block ∈ blocks.filter keep, block ∈ blocks ∧ keep block = true :=
    fun block member => mem_filter.mp member
  have separated := visited.descending.filter keep
  generalize blocks.filter keep = straddling at kept separated
  rcases straddling with _ | ⟨first, _ | ⟨second, rest⟩⟩
  · exact .inl rfl
  · have member := kept first mem_cons_self
    exact .inr ⟨first, member.1, member.2, rfl⟩
  · have gap := (pairwise_cons.mp separated).1 second mem_cons_self
    have inSecond := kept second (mem_cons_of_mem first mem_cons_self)
    have reaches := reach second inSecond.1 inSecond.2
    have starts := visited.below first (kept first mem_cons_self).1
    omega

section

variable (lawful : tree.Lawful sackBlockLess) (within : s.Within una limit)
  (inside : offset una seq ≤ limit)
include lawful within inside

/-- The effect of `Delete`, from the blocks that it visits: those that start at or before `seq`. -/
theorem trim_within (startR : r.lo una = offset una seq)
    (visited : Visited una (offset una seq) blocks)
    (visits : ∀ block, block ∈ blocks ↔ block ∈ s.items ∧ block.lo una ≤ offset una seq) :
    { s with
      ranges := (deleteScan seq r blocks s.sacked).2.1.foldl
        (fun ranges sb => (tree.replaceOrInsert ranges sb).1)
        ((deleteScan seq r blocks s.sacked).1.foldl (fun ranges sb => (tree.delete ranges sb).1) s.ranges)
      sacked := (deleteScan seq r blocks s.sacked).2.2 : SACKScoreboard tree }.Within
      seq (limit - offset una seq) := by
  have near := within.near
  obtain ⟨deletes, inserts, counts⟩ := deleteScan_spec seq r blocks s.sacked
  generalize deleteScan seq r blocks s.sacked = scan at deletes inserts counts ⊢
  obtain ⟨toDelete, toInsert, sacked⟩ := scan
  dsimp only at deletes inserts counts ⊢
  have members : ∀ block ∈ toDelete, block ∈ s.items := by
    intro block member
    rw [deletes] at member
    exact ((visits block).mp (mem_filter.mp member).1).1
  have distinct : toDelete.Pairwise fun a b => a.lo una ≠ b.lo una := by
    rw [deletes]
    apply (visited.descending.filter _).imp_of_mem
    intro a b memberA memberB gap
    have nonempty := (visited.near b (mem_filter.mp memberB).1).1
    omega
  obtain ⟨removed, ranges⟩ := removeAll_counts lawful within members distinct
  obtain ⟨cleared, left⟩ := removeAll_within lawful within fun block member => within.knows (members block member)
  generalize toDelete.foldl remove s = rest at removed ranges cleared left
  rw [← ranges]
  have counted : sacked = rest.sacked + totalSize toInsert := by
    generalize totalSize toDelete = deleted at removed counts
    generalize totalSize toInsert = inserted at counts ⊢
    grind
  have after : ∀ block ∈ rest.items, offset una seq ≤ block.lo una ∧
      (block.lo una = offset una seq → block = r) := by
    intro block member
    obtain ⟨inItems, kept⟩ := (left block).mp member
    have onlyR : block.lo una ≤ offset una seq → block = r := by
      intro below
      apply Decidable.byContradiction
      intro differs
      apply kept
      rw [deletes, mem_filter]
      exact ⟨(visits block).mpr ⟨inItems, below⟩, decide_eq_true differs⟩
    refine ⟨?_, fun same => onlyR (Nat.le_of_eq same)⟩
    apply Nat.not_lt.mp
    intro before
    have same := congrArg (lo una) (onlyR (Nat.le_of_lt before))
    omega
  have reach : ∀ block ∈ blocks,
      decide (block ≠ r ∧ lessThanEq block.stop seq = false) = true →
      offset una seq < block.hi una := by
    intro block member chosen
    have ends := (of_decide_eq_true chosen).2
    rw [lessThanEq_offset (visited.near block member).2 (by omega), decide_eq_false_iff_not] at ends
    exact Nat.not_le.mp ends
  rcases straddling_alone _ visited reach with none | ⟨block, member, chosen, alone⟩
  · rw [none] at inserts
    subst inserts
    refine (cleared.rebase inside fun block member => (after block member).1).congr rfl ?_
    rw [counted]
    exact BitVec.add_zero _
  rw [alone] at inserts
  subst inserts
  obtain ⟨inItems, below⟩ := (visits block).mp member
  have reaches := reach block member chosen
  have ordered : (block.after seq).lo una < (block.after seq).hi una := reaches
  have bounded : (block.after seq).hi una ≤ limit := within.bounded block inItems
  have untouched : ∀ other ∈ rest.items, other.hi una < (block.after seq).lo una ∨
      (block.after seq).hi una < other.lo una := by
    intro other inRest
    have inItems' := ((left other).mp inRest).1
    obtain ⟨starts, onlyR⟩ := after other inRest
    have differs : other ≠ block := by
      rintro rfl
      exact (of_decide_eq_true chosen).1 (onlyR (Nat.le_antisymm below starts))
    have gap := within.apart.gap inItems inItems' differs.symm (Nat.le_trans below starts)
    exact .inr gap
  obtain ⟨_, placed⟩ := place_within lawful cleared ordered bounded untouched
  refine (placed.rebase inside ?_).congr rfl ?_
  · obtain ⟨items, _⟩ := lawful.inserts rest.ranges (block.after seq) (lo una)
      (cleared.ranks (by omega)) cleared.apart.ascending
    intro other inPlaced
    change other ∈ tree.items (tree.replaceOrInsert rest.ranges (block.after seq)).1 at inPlaced
    rw [items] at inPlaced
    rcases mem_insertRanked.mp inPlaced with rfl | ⟨inRest, _⟩
    · exact Nat.le_refl _
    · exact (after other inRest).1
  · rw [counted]
    exact congrArg (rest.sacked + ·) (BitVec.add_zero _)

theorem deleteBefore_within : (s.deleteBefore seq).Within seq (limit - offset una seq) := by
  have near := within.near
  unfold deleteBefore
  by_cases empty : s.empty = true
  · rw [if_pos empty]
    apply within.rebase inside
    intro block member
    have length := length_pos_of_mem member
    have none := of_decide_eq_true empty
    omega
  rw [if_neg empty]
  obtain ⟨visited, visits⟩ := within.visits lawful (r := ⟨seq, seq + 1⟩) (by simp only [lo]; omega)
  exact trim_within lawful within inside rfl visited visits

end

theorem SACKScoreboard.Within.mono {more : Nat} (within : s.Within una limit)
    (larger : limit ≤ more) (near : more < 2 ^ 31) : s.Within una more :=
  ⟨near, within.apart, fun block member => Nat.le_trans (within.bounded block member) larger, within.counted⟩

theorem within_of_items_nil (near : limit < 2 ^ 31) (items : s.items = []) (sacked : s.sacked = 0) :
    s.Within una limit := by
  refine ⟨near, items ▸ .nil, ?_, ?_⟩
  · intro block member
    rw [items] at member
    cases member
  · rw [items, sacked]
    rfl

end BVisor.Tcp
