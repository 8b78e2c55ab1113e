import BVisor.Data.OrderedTree

/-! Ascending lists of intervals that do not touch, and how much of the line they span. -/

namespace BVisor.Data

open List

universe u

variable {α : Type u} {lo hi : α → Nat} {items : List α} {item : α}

/-- The intervals `[lo, hi)` are not empty, ascend and leave gaps between them. -/
structure Apart (lo hi : α → Nat) (items : List α) : Prop where
  nonempty : ∀ item ∈ items, lo item < hi item
  separated : items.Pairwise fun a b => hi a < lo b

def spanned (lo hi : α → Nat) (items : List α) : Nat :=
  (items.map fun item => hi item - lo item).sum

theorem Apart.nil : Apart lo hi [] :=
  ⟨fun _ member => (nomatch member), .nil⟩

theorem Apart.tail (apart : Apart lo hi (item :: items)) : Apart lo hi items :=
  ⟨(forall_mem_cons.mp apart.nonempty).2, (pairwise_cons.mp apart.separated).2⟩

section

variable (apart : Apart lo hi items)
include apart

theorem Apart.ascending : Ascending lo items :=
  apart.separated.imp_of_mem fun member _ gap => Nat.lt_trans (apart.nonempty _ member) gap

theorem Apart.filter (keep : α → Bool) : Apart lo hi (items.filter keep) :=
  ⟨fun item member => apart.nonempty item (mem_filter.mp member).1, apart.separated.filter keep⟩

theorem Apart.gap {a b : α} (memberA : a ∈ items) (memberB : b ∈ items) (differs : a ≠ b)
    (before : lo a ≤ lo b) : hi a < lo b := by
  have either : items.Pairwise fun a b => hi a < lo b ∨ hi b < lo a := apart.separated.imp .inl
  have : Std.Symm fun a b => hi a < lo b ∨ hi b < lo a := ⟨fun _ _ => Or.symm⟩
  rcases either.forall memberA memberB differs with gap | gap
  · exact gap
  · have nonempty := apart.nonempty b memberB
    omega

theorem Apart.insertRanked (nonempty : lo item < hi item)
    (untouched : ∀ other ∈ items, hi other < lo item ∨ hi item < lo other) :
    Apart lo hi (insertRanked lo item items) := by
  constructor
  · intro other member
    rcases mem_insertRanked.mp member with rfl | ⟨member, _⟩
    · exact nonempty
    · exact apart.nonempty other member
  · have ascends : Ascending lo (Data.insertRanked lo item items) := apart.ascending.insertRanked
    apply ascends.imp_of_mem
    intro a b memberA memberB before
    rcases mem_insertRanked.mp memberA with sameA | ⟨oldA, _⟩ <;>
      rcases mem_insertRanked.mp memberB with sameB | ⟨oldB, _⟩
    · rw [sameA, sameB] at before
      exact absurd before (Nat.lt_irrefl _)
    · rw [sameA] at before ⊢
      rcases untouched b oldB with below | above
      · have := apart.nonempty b oldB
        omega
      · exact above
    · rw [sameB] at before ⊢
      rcases untouched a oldA with below | above
      · exact below
      · omega
    · exact apart.gap oldA oldB (fun same => by simp [same] at before) (Nat.le_of_lt before)

end

theorem spanned_cons (head : α) (rest : List α) :
    spanned lo hi (head :: rest) = (hi head - lo head) + spanned lo hi rest := by
  simp [spanned]

theorem spanned_append (first second : List α) :
    spanned lo hi (first ++ second) = spanned lo hi first + spanned lo hi second := by
  simp [spanned]

theorem spanned_filter_not (lo hi : α → Nat) (keep : α → Bool) (items : List α) :
    spanned lo hi (items.filter keep) + spanned lo hi (items.filter fun item => !keep item) =
      spanned lo hi items := by
  induction items with
  | nil => rfl
  | cons head rest ih =>
    cases kept : keep head with
    | true =>
      rw [filter_cons_of_pos kept, filter_cons_of_neg (by simp [kept]), spanned_cons, spanned_cons]
      omega
    | false =>
      rw [filter_cons_of_neg (by simp [kept]), filter_cons_of_pos (by simp [kept]), spanned_cons, spanned_cons]
      omega

theorem Apart.spanned_remove (apart : Apart lo hi items) (member : item ∈ items) :
    spanned lo hi (items.filter fun other => lo other ≠ lo item) + (hi item - lo item) =
      spanned lo hi items := by
  have alone : items.filter (fun other => !decide (lo other ≠ lo item)) = [item] := by
    induction items with
    | nil => cases member
    | cons head rest ih =>
      have later := (pairwise_cons.mp apart.ascending).1
      cases member with
      | head =>
        rw [filter_cons_of_pos (by simp)]
        rw [filter_eq_nil_iff.mpr]
        intro other inRest
        have := later other inRest
        simp only [ne_eq, decide_not, Bool.not_not, decide_eq_true_eq]
        omega
      | tail _ member =>
        have := later item member
        rw [filter_cons_of_neg (by simp; omega)]
        exact ih apart.tail member
  have split := spanned_filter_not lo hi (fun other => lo other ≠ lo item) items
  rw [alone, spanned_cons] at split
  exact split

theorem spanned_insertRanked (fresh : ∀ other ∈ items, lo other ≠ lo item) :
    spanned lo hi (insertRanked lo item items) =
      spanned lo hi items + (hi item - lo item) := by
  have above : items.filter (fun other => lo item < lo other) =
      items.filter fun other => !decide (lo other < lo item) := by
    apply filter_congr
    intro other member
    have := fresh other member
    rw [← decide_not]
    exact decide_eq_decide.mpr (by omega)
  have split := spanned_filter_not lo hi (fun other => lo other < lo item) items
  unfold Data.insertRanked
  rw [spanned_append, spanned_cons, above]
  omega

theorem Apart.spanned_le {lower upper : Nat} (apart : Apart lo hi items) (ordered : lower ≤ upper)
    (bounds : ∀ item ∈ items, lower ≤ lo item ∧ hi item ≤ upper) :
    lower + spanned lo hi items ≤ upper := by
  induction items generalizing lower with
  | nil => exact ordered
  | cons head rest ih =>
    have gaps := (pairwise_cons.mp apart.separated).1
    have nonempty := apart.nonempty head mem_cons_self
    have inBounds := bounds head mem_cons_self
    have rests : hi head + spanned lo hi rest ≤ upper := ih apart.tail inBounds.2
      fun item member => ⟨Nat.le_of_lt (gaps item member), (bounds item (mem_cons_of_mem head member)).2⟩
    rw [spanned_cons]
    omega

end BVisor.Data
