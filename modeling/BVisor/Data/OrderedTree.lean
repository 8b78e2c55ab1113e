import Mathlib

/-! Containers that keep their items in the order of a comparison function, as search trees do. The
promises of such a container hold as long as the comparison is an order on what it holds and on the
item it is asked about; this is said with a function that ranks these items as the comparison
does. -/

namespace BVisor.Data

open List

universe u

variable {α : Type u} {less : α → α → Bool} {rank : α → Nat} {items : List α} {item : α}

/-- The operations of an ordered container. An iteration is given by the items that it visits, in
the order in which it visits them; an update also tells whether an equal item was there. -/
structure OrderedTree (α : Type u) where
  Tree : Type u
  empty : Tree
  items : Tree → List α
  ascendGreaterOrEqual : Tree → α → List α
  descendLessOrEqual : Tree → α → List α
  replaceOrInsert : Tree → α → Tree × Bool
  delete : Tree → α → Tree × Bool

def Ranks (less : α → α → Bool) (rank : α → Nat) (items : List α) : Prop :=
  ∀ a ∈ items, ∀ b ∈ items, less a b = decide (rank a < rank b)

def Ascending (rank : α → Nat) (items : List α) : Prop :=
  items.Pairwise fun a b => rank a < rank b

def insertRanked (rank : α → Nat) (item : α) (items : List α) : List α :=
  items.filter (fun other => rank other < rank item) ++ item :: items.filter fun other => rank item < rank other

structure OrderedTree.Lawful (tree : OrderedTree α) (less : α → α → Bool) : Prop where
  items_empty : tree.items tree.empty = []
  ascends : ∀ t pivot rank, Ranks less rank (pivot :: tree.items t) →
    Ascending rank (tree.items t) →
    tree.ascendGreaterOrEqual t pivot = (tree.items t).filter fun item => rank pivot ≤ rank item
  descends : ∀ t pivot rank, Ranks less rank (pivot :: tree.items t) →
    Ascending rank (tree.items t) →
    tree.descendLessOrEqual t pivot = ((tree.items t).filter fun item => rank item ≤ rank pivot).reverse
  inserts : ∀ t item rank, Ranks less rank (item :: tree.items t) →
    Ascending rank (tree.items t) →
    tree.items (tree.replaceOrInsert t item).1 = insertRanked rank item (tree.items t) ∧
    (tree.replaceOrInsert t item).2 = (tree.items t).any fun other => rank other = rank item
  deletes : ∀ t item rank, Ranks less rank (item :: tree.items t) →
    Ascending rank (tree.items t) →
    tree.items (tree.delete t item).1 = (tree.items t).filter (fun other => rank other ≠ rank item) ∧
    (tree.delete t item).2 = (tree.items t).any fun other => rank other = rank item

theorem mem_insertRanked {other : α} :
    other ∈ insertRanked rank item items ↔
      other = item ∨ other ∈ items ∧ rank other ≠ rank item := by
  unfold insertRanked
  simp only [mem_append, mem_cons, mem_filter, decide_eq_true_eq]
  constructor
  · rintro (⟨member, below⟩ | same | ⟨member, above⟩)
    · exact .inr ⟨member, Nat.ne_of_lt below⟩
    · exact .inl same
    · exact .inr ⟨member, Nat.ne_of_gt above⟩
  · rintro (same | ⟨member, differs⟩)
    · exact .inr (.inl same)
    · rcases Nat.lt_or_gt_of_ne differs with below | above
      · exact .inl ⟨member, below⟩
      · exact .inr (.inr ⟨member, above⟩)

theorem Ascending.insertRanked (ascending : Ascending rank items) :
    Ascending rank (insertRanked rank item items) := by
  unfold Ascending Data.insertRanked
  rw [pairwise_append, pairwise_cons]
  refine ⟨ascending.filter _, ⟨?_, ascending.filter _⟩, ?_⟩
  · intro other member
    simpa using (mem_filter.mp member).2
  · intro low memberLow high memberHigh
    have below : rank low < rank item := by simpa using (mem_filter.mp memberLow).2
    rcases mem_cons.mp memberHigh with rfl | memberHigh
    · exact below
    · have above : rank item < rank high := by simpa using (mem_filter.mp memberHigh).2
      exact Nat.lt_trans below above

theorem Ascending.eq_of_rank {a b : α} (ascending : Ascending rank items) (memberA : a ∈ items)
    (memberB : b ∈ items) (same : rank a = rank b) : a = b := by
  have ranked : items.Pairwise fun a b => rank a ≠ rank b := ascending.imp Nat.ne_of_lt
  have : Std.Symm fun a b => rank a ≠ rank b := ⟨fun _ _ => Ne.symm⟩
  by_contra differs
  exact ranked.forall memberA memberB differs same

/-- A sorted list is an ordered container. -/
def sortedList (less : α → α → Bool) : OrderedTree α where
  Tree := List α
  empty := []
  items := id
  ascendGreaterOrEqual := fun items pivot => items.filter fun item => !less item pivot
  descendLessOrEqual := fun items pivot => (items.filter fun item => !less pivot item).reverse
  replaceOrInsert := fun items item =>
    (items.filter (fun other => less other item) ++
      item :: items.filter fun other => less item other,
     items.any fun other => !less other item && !less item other)
  delete := fun items item =>
    (items.filter (fun other => less other item || less item other),
     items.any fun other => !less other item && !less item other)

theorem Ranks.any_equal (ranks : Ranks less rank (item :: items)) :
    items.any (fun other => !less other item && !less item other) =
      items.any fun other => rank other = rank item := by
  rw [Bool.eq_iff_iff, any_eq_true, any_eq_true]
  refine exists_congr fun other => and_congr_right fun member => ?_
  rw [ranks other (mem_cons_of_mem item member) item mem_cons_self,
    ranks item mem_cons_self other (mem_cons_of_mem item member)]
  simp only [Bool.and_eq_true, Bool.not_eq_true', decide_eq_false_iff_not, decide_eq_true_eq]
  omega

theorem sortedList_lawful (less : α → α → Bool) : (sortedList less).Lawful less where
  items_empty := rfl
  ascends := by
    intro items pivot rank ranks ascending
    apply filter_congr
    intro item member
    rw [ranks item (mem_cons_of_mem pivot member) pivot mem_cons_self, ← decide_not]
    exact decide_eq_decide.mpr Nat.not_lt
  descends := by
    intro items pivot rank ranks ascending
    apply congrArg List.reverse
    apply filter_congr
    intro item member
    rw [ranks pivot mem_cons_self item (mem_cons_of_mem pivot member), ← decide_not]
    exact decide_eq_decide.mpr Nat.not_lt
  inserts := by
    intro items item rank ranks ascending
    refine ⟨?_, ranks.any_equal⟩
    have low : List.filter (fun other => less other item) items =
        List.filter (fun other => rank other < rank item) items := by
      apply filter_congr
      intro other member
      exact ranks other (mem_cons_of_mem item member) item mem_cons_self
    have high : List.filter (fun other => less item other) items =
        List.filter (fun other => rank item < rank other) items := by
      apply filter_congr
      intro other member
      exact ranks item mem_cons_self other (mem_cons_of_mem item member)
    show List.filter (fun other => less other item) items ++
      item :: List.filter (fun other => less item other) items = _
    rw [low, high]
    rfl
  deletes := by
    intro items item rank ranks ascending
    refine ⟨?_, ranks.any_equal⟩
    apply filter_congr
    intro other member
    rw [ranks other (mem_cons_of_mem item member) item mem_cons_self,
      ranks item mem_cons_self other (mem_cons_of_mem item member),
      Bool.eq_iff_iff, Bool.or_eq_true, decide_eq_true_eq, decide_eq_true_eq, decide_eq_true_eq]
    omega

end BVisor.Data
