import Mathlib

/-! Binary heaps kept in an array, by the algorithms of a standard library that is given a
comparison and swaps elements. The comparison need not be an order; it is enough that it agrees with
a rank on the elements that are in the heap. -/

namespace BVisor.Data.Heap

universe u

variable {α : Type u}

def lessAt (less : α → α → Bool) (heap : Array α) (i j : Nat) : Bool :=
  match heap[i]?, heap[j]? with
  | some first, some second => less first second
  | _, _ => false

def parent (i : Nat) : Nat := (i - 1) / 2

def up (less : α → α → Bool) : Nat → Array α → Nat → Array α
  | 0, heap, _ => heap
  | fuel + 1, heap, j =>
    if parent j = j ∨ lessAt less heap j (parent j) = false then heap
    else up less fuel (heap.swapIfInBounds (parent j) j) (parent j)

def child (less : α → α → Bool) (heap : Array α) (i count : Nat) : Nat :=
  if 2 * i + 2 < count ∧ lessAt less heap (2 * i + 2) (2 * i + 1) = true then 2 * i + 2
  else 2 * i + 1

def down (less : α → α → Bool) : Nat → Array α → Nat → Nat → Array α
  | 0, heap, _, _ => heap
  | fuel + 1, heap, i, count =>
    if count ≤ 2 * i + 1 then heap
    else if lessAt less heap (child less heap i count) i = false then heap
    else
      down less fuel (heap.swapIfInBounds i (child less heap i count)) (child less heap i count) count

def push (less : α → α → Bool) (heap : Array α) (item : α) : Array α :=
  up less heap.size (heap.push item) heap.size

def pop (less : α → α → Bool) (heap : Array α) : Array α :=
  (down less heap.size (heap.swapIfInBounds 0 (heap.size - 1)) 0 (heap.size - 1)).pop

def Ordered (less : α → α → Bool) (heap : Array α) : Prop :=
  ∀ i, 0 < i → i < heap.size → lessAt less heap i (parent i) = false

/-- The comparison agrees with the rank on the elements of the heap. -/
def Ranks (less : α → α → Bool) (rank : α → Nat) (heap : Array α) : Prop :=
  ∀ first ∈ heap, ∀ second ∈ heap, less first second = decide (rank first < rank second)

/-! The order of the ranks, as a function of the index. -/

section

variable {f : Nat → Nat} {count i j : Nat}

def exchange (f : Nat → Nat) (i j k : Nat) : Nat :=
  if k = i then f j else if k = j then f i else f k

def InOrder (f : Nat → Nat) (count : Nat) : Prop :=
  ∀ k, 0 < k → k < count → f (parent k) ≤ f k

/-- All pairs are in order but that of `j` and its parent. -/
structure UpOrder (f : Nat → Nat) (count j : Nat) : Prop where
  others : ∀ k, 0 < k → k < count → k ≠ j → f (parent k) ≤ f k
  below : 0 < j → ∀ k, 0 < k → k < count → parent k = j → f (parent j) ≤ f k

/-- All pairs are in order but those of `i` and its children. -/
structure DownOrder (f : Nat → Nat) (count i : Nat) : Prop where
  others : ∀ k, 0 < k → k < count → parent k ≠ i → f (parent k) ≤ f k
  below : 0 < i → ∀ k, 0 < k → k < count → parent k = i → f (parent i) ≤ f k

theorem parent_lt (positive : 0 < i) : parent i < i := by
  unfold parent
  omega

theorem parent_eq_iff (positive : 0 < j) : parent j = i ↔ j = 2 * i + 1 ∨ j = 2 * i + 2 := by
  unfold parent
  omega

theorem UpOrder.move (order : UpOrder f count j) (positive : 0 < j) (within : j < count)
    (less : f j < f (parent j)) : UpOrder (exchange f (parent j) j) count (parent j) := by
  have smaller := parent_lt positive
  constructor
  · intro k kPositive kWithin differs
    by_cases isJ : k = j
    · subst isJ
      simp only [exchange, ↓reduceIte, Nat.ne_of_gt smaller]
      omega
    have kept := order.others k kPositive kWithin isJ
    by_cases childOfJ : parent k = j
    · have grand := order.below positive k kPositive kWithin childOfJ
      simp only [exchange, childOfJ, isJ, differs, ↓reduceIte, Nat.ne_of_gt smaller]
      exact grand
    · by_cases sibling : parent k = parent j
      · simp only [exchange, sibling, isJ, differs, ↓reduceIte]
        rw [sibling] at kept
        omega
      · simpa only [exchange, childOfJ, sibling, isJ, differs, ↓reduceIte] using kept
  · intro topPositive k kPositive kWithin childOfTop
    have topSmaller := parent_lt topPositive
    have above := order.others (parent j) topPositive (by omega) (Nat.ne_of_lt smaller)
    have differs : k ≠ parent j := by
      have := parent_lt kPositive
      omega
    by_cases isJ : k = j
    · subst isJ
      simp only [exchange, ↓reduceIte, Nat.ne_of_lt topSmaller, Nat.ne_of_gt smaller,
        Nat.ne_of_lt (Nat.lt_trans topSmaller smaller)]
      exact above
    · have kept := order.others k kPositive kWithin isJ
      rw [childOfTop] at kept
      simp only [exchange, isJ, differs, ↓reduceIte, Nat.ne_of_lt topSmaller,
        Nat.ne_of_lt (Nat.lt_trans topSmaller smaller)]
      omega

theorem UpOrder.finish (order : UpOrder f count j) (fits : j = 0 ∨ f (parent j) ≤ f j) : InOrder f count := by
  intro k positive within
  by_cases isJ : k = j
  · subst isJ
    rcases fits with zero | fits
    · omega
    · exact fits
  · exact order.others k positive within isJ

theorem DownOrder.move (order : DownOrder f count i) (childOf : parent j = i) (positive : 0 < j)
    (within : j < count) (less : f j < f i) (least : ∀ k, 0 < k → k < count → parent k = i → f j ≤ f k) :
    DownOrder (exchange f i j) count j := by
  have smaller : i < j := childOf ▸ parent_lt positive
  constructor
  · intro k kPositive kWithin notChild
    have kSmaller := parent_lt kPositive
    by_cases childOfI : parent k = i
    · by_cases isJ : k = j
      · subst isJ
        simp only [exchange, childOfI, ↓reduceIte, Nat.ne_of_gt smaller]
        omega
      · have bound := least k kPositive kWithin childOfI
        have differs : k ≠ i := by omega
        simp only [exchange, childOfI, isJ, differs, ↓reduceIte]
        exact bound
    have kept := order.others k kPositive kWithin childOfI
    have notJ : k ≠ j := fun same => childOfI (same ▸ childOf)
    by_cases isI : k = i
    · subst isI
      have grand := order.below kPositive j positive within childOf
      simp only [exchange, ↓reduceIte, childOfI, notChild]
      exact grand
    · simpa only [exchange, childOfI, notChild, isI, notJ, ↓reduceIte] using kept
  · intro _ k kPositive kWithin childOfJ
    have kSmaller := parent_lt kPositive
    have kept := order.others k kPositive kWithin (by omega)
    rw [childOfJ] at kept
    have notI : k ≠ i := by omega
    have notJ : k ≠ j := by omega
    simp only [exchange, childOf, notI, notJ, ↓reduceIte]
    exact kept

theorem DownOrder.finish (order : DownOrder f count i)
    (least : ∀ k, 0 < k → k < count → parent k = i → f i ≤ f k) : InOrder f count := by
  intro k positive within
  by_cases childOfI : parent k = i
  · rw [childOfI]
    exact least k positive within childOfI
  · exact order.others k positive within childOfI

theorem InOrder.first_le (order : InOrder f count) (k : Nat) (within : k < count) : f 0 ≤ f k := by
  induction k using Nat.strongRecOn with
  | ind k ih =>
    by_cases zero : k = 0
    · subst zero
      exact Nat.le_refl _
    · have positive : 0 < k := Nat.pos_of_ne_zero zero
      have smaller := parent_lt positive
      exact Nat.le_trans (ih (parent k) smaller (by omega)) (order k positive within)

end

variable {less : α → α → Bool} {rank : α → Nat} {heap : Array α} {i j count fuel : Nat} {other : Array α}

def rankAt (rank : α → Nat) (heap : Array α) (i : Nat) : Nat :=
  (heap[i]?.map rank).getD 0

theorem rankAt_eq (within : i < heap.size) : rankAt rank heap i = rank heap[i] := by
  simp [rankAt, within]

theorem rankAt_swap (iWithin : i < heap.size) (jWithin : j < heap.size) :
    rankAt rank (heap.swapIfInBounds i j) = exchange (rankAt rank heap) i j := by
  funext k
  simp only [rankAt, Array.swapIfInBounds, iWithin, jWithin, ↓reduceDIte, Array.getElem?_swap, exchange]
  by_cases isI : k = i
  · by_cases isJ : j = k
    · have same : j = i := isJ.trans isI
      simp [isI, same, iWithin]
    · simp [isI, isI ▸ isJ, jWithin]
  · by_cases isJ : k = j
    · simp [isJ, isJ ▸ isI, iWithin]
    · simp [isI, isJ, Ne.symm isI, Ne.symm isJ]

theorem swap_perm (heap : Array α) (i j : Nat) :
    (heap.swapIfInBounds i j).toList.Perm heap.toList := by
  unfold Array.swapIfInBounds
  split
  · split
    · exact (Array.swap_perm _ _).toList
    · exact .rfl
  · exact .rfl

section

variable (ranks : Ranks less rank heap)
include ranks

theorem Ranks.lessAt (iWithin : i < heap.size) (jWithin : j < heap.size) :
    lessAt less heap i j = decide (rankAt rank heap i < rankAt rank heap j) := by
  rw [rankAt_eq iWithin, rankAt_eq jWithin]
  simp only [Heap.lessAt, Array.getElem?_eq_getElem iWithin, Array.getElem?_eq_getElem jWithin]
  exact ranks _ (Array.getElem_mem iWithin) _ (Array.getElem_mem jWithin)

theorem Ranks.perm (perm : other.toList.Perm heap.toList) : Ranks less rank other := by
  intro first firstMember second secondMember
  apply ranks
  · exact Array.mem_def.mpr (perm.mem_iff.mp (Array.mem_def.mp firstMember))
  · exact Array.mem_def.mpr (perm.mem_iff.mp (Array.mem_def.mp secondMember))

theorem ordered_iff : Ordered less heap ↔ InOrder (rankAt rank heap) heap.size := by
  constructor
  · intro ordered k positive within
    have kept := ordered k positive within
    have smaller := parent_lt positive
    rw [ranks.lessAt within (by omega)] at kept
    simpa using kept
  · intro order k positive within
    have smaller := parent_lt positive
    rw [ranks.lessAt within (by omega)]
    simpa using order k positive within

theorem up_spec (within : j < heap.size) (enough : j ≤ fuel) (order : UpOrder (rankAt rank heap) heap.size j) :
    (up less fuel heap j).toList.Perm heap.toList ∧ Ordered less (up less fuel heap j) := by
  induction fuel generalizing heap j with
  | zero =>
    have zero : j = 0 := by omega
    exact ⟨.rfl, (ordered_iff ranks).mpr (order.finish (.inl zero))⟩
  | succ fuel ih =>
    unfold up
    split
    · rename_i stops
      refine ⟨.rfl, (ordered_iff ranks).mpr (order.finish ?_)⟩
      by_cases zero : j = 0
      · exact .inl zero
      have smaller := parent_lt (Nat.pos_of_ne_zero zero)
      rcases stops with same | notLess
      · omega
      · rw [ranks.lessAt within (by omega)] at notLess
        exact .inr (by simpa using notLess)
    rename_i goes
    rw [not_or] at goes
    have positive : 0 < j := by
      have differs := goes.1
      unfold parent at differs
      omega
    have smaller := parent_lt positive
    have topWithin : parent j < heap.size := by omega
    have lessThan : rankAt rank heap j < rankAt rank heap (parent j) := by
      have lower := goes.2
      rw [ranks.lessAt within topWithin] at lower
      simpa using lower
    have swapped := swap_perm heap (parent j) j
    have moved := order.move positive within lessThan
    obtain ⟨perm, ordered⟩ := ih (ranks.perm swapped) (by simpa using topWithin) (by omega)
      (by simpa only [rankAt_swap topWithin within, Array.size_swapIfInBounds] using moved)
    exact ⟨perm.trans swapped, ordered⟩

theorem child_spec (fits : count ≤ heap.size) (hasChild : 2 * i + 1 < count) :
    parent (child less heap i count) = i ∧ 0 < child less heap i count ∧
      child less heap i count < count ∧
      ∀ k, 0 < k → k < count → parent k = i →
        rankAt rank heap (child less heap i count) ≤ rankAt rank heap k := by
  unfold child
  split
  · rename_i second
    obtain ⟨within, lower⟩ := second
    rw [ranks.lessAt (by omega) (by omega)] at lower
    simp only [decide_eq_true_eq] at lower
    refine ⟨(parent_eq_iff (by omega)).mpr (.inr rfl), by omega, within, ?_⟩
    intro k positive kWithin childOf
    rcases (parent_eq_iff positive).mp childOf with rfl | rfl <;> omega
  rename_i first
  refine ⟨(parent_eq_iff (by omega)).mpr (.inl rfl), by omega, hasChild, ?_⟩
  intro k positive kWithin childOf
  rcases (parent_eq_iff positive).mp childOf with rfl | rfl
  · exact Nat.le_refl _
  · have notLower := fun lower => first ⟨kWithin, lower⟩
    rw [ranks.lessAt (by omega) (by omega)] at notLower
    simpa using notLower

theorem down_spec (fits : count ≤ heap.size)
    (enough : count ≤ fuel + i) (order : DownOrder (rankAt rank heap) count i) :
    (down less fuel heap i count).toList.Perm heap.toList ∧
      InOrder (rankAt rank (down less fuel heap i count)) count ∧
      ∀ k, count ≤ k → (down less fuel heap i count)[k]? = heap[k]? := by
  induction fuel generalizing heap i with
  | zero =>
    refine ⟨.rfl, order.finish ?_, fun _ _ => rfl⟩
    intro k positive within childOf
    have smaller := parent_lt positive
    omega
  | succ fuel ih =>
    unfold down
    split
    · refine ⟨.rfl, order.finish ?_, fun _ _ => rfl⟩
      intro k positive within childOf
      have isChild := (parent_eq_iff positive).mp childOf
      omega
    rename_i hasChild
    obtain ⟨childOf, positive, within, least⟩ := child_spec ranks fits (Nat.lt_of_not_ge hasChild)
    have smaller : i < child less heap i count := by
      have above := parent_lt positive
      omega
    split
    · rename_i notLess
      rw [ranks.lessAt (by omega) (by omega)] at notLess
      refine ⟨.rfl, order.finish fun k kPositive kWithin kChild => ?_, fun _ _ => rfl⟩
      exact Nat.le_trans (by simpa using notLess) (least k kPositive kWithin kChild)
    rename_i lower
    rw [ranks.lessAt (by omega) (by omega)] at lower
    have swapped := swap_perm heap i (child less heap i count)
    have moved := order.move childOf positive within (by simpa using lower) least
    rw [← rankAt_swap (by omega) (by omega)] at moved
    obtain ⟨perm, ordered, beyond⟩ := @ih _ (child less heap i count)
      (ranks.perm swapped) (by simpa using fits) (by omega) moved
    refine ⟨perm.trans swapped, ordered, fun k outside => ?_⟩
    rw [beyond k outside]
    simp only [Array.swapIfInBounds]
    rw [dif_pos (by omega), dif_pos (by omega), Array.getElem?_swap]
    rw [if_neg (by omega), if_neg (by omega)]

end

theorem down_size : (down less fuel heap i count).size = heap.size := by
  induction fuel generalizing heap i with
  | zero => rfl
  | succ fuel ih =>
    unfold down
    split
    · rfl
    · split
      · rfl
      · rw [ih, Array.size_swapIfInBounds]

theorem pop_size : (pop less heap).size = heap.size - 1 := by
  unfold pop
  rw [Array.size_pop, down_size, Array.size_swapIfInBounds]

theorem Ranks.subset (ranks : Ranks less rank heap)
    (subset : ∀ item ∈ other, item ∈ heap) : Ranks less rank other :=
  fun first firstMember second secondMember =>
    ranks first (subset first firstMember) second (subset second secondMember)

theorem push_spec {item : α} (ranks : Ranks less rank (heap.push item)) (ordered : Ordered less heap) :
    (push less heap item).toList.Perm (item :: heap.toList) ∧
      Ordered less (push less heap item) := by
  have old : Ranks less rank heap := ranks.subset fun member inHeap => Array.mem_push_of_mem item inHeap
  have order := (ordered_iff old).mp ordered
  have same (k : Nat) (within : k < heap.size) :
      rankAt rank (heap.push item) k = rankAt rank heap k := by
    rw [rankAt_eq within, rankAt_eq (by simp; omega), Array.getElem_push_lt within]
  have start : UpOrder (rankAt rank (heap.push item)) (heap.push item).size heap.size := by
    constructor
    · intro k positive within differs
      have smaller := parent_lt positive
      rw [Array.size_push] at within
      rw [same k (by omega), same (parent k) (by omega)]
      exact order k positive (by omega)
    · intro _ k positive within childOf
      have smaller := parent_lt positive
      rw [Array.size_push] at within
      omega
  obtain ⟨perm, result⟩ := up_spec ranks (by simp) (Nat.le_refl _) start
  refine ⟨perm.trans ?_, result⟩
  rw [Array.toList_push]
  exact List.perm_append_singleton item heap.toList

theorem pop_spec (nonempty : 0 < heap.size) (ranks : Ranks less rank heap) (ordered : Ordered less heap) :
    ∃ top, heap.toList.Perm (top :: (pop less heap).toList) ∧ Ordered less (pop less heap) := by
  have order := (ordered_iff ranks).mp ordered
  have swapped := swap_perm heap 0 (heap.size - 1)
  have start : DownOrder (rankAt rank (heap.swapIfInBounds 0 (heap.size - 1)))
      (heap.size - 1) 0 := by
    rw [rankAt_swap nonempty (by omega)]
    constructor
    · intro k positive within notChild
      have smaller := parent_lt positive
      simp only [exchange, notChild, Nat.ne_of_gt positive, Nat.ne_of_lt within, ↓reduceIte,
        Nat.ne_of_lt (Nat.lt_trans smaller within)]
      exact order k positive (by omega)
    · intro zero
      omega
  have enough : heap.size - 1 ≤ heap.size + 0 := by omega
  obtain ⟨perm, result, beyond⟩ := down_spec (ranks.perm swapped) (by simp) enough start
  unfold pop
  generalize down less heap.size (heap.swapIfInBounds 0 (heap.size - 1)) 0 (heap.size - 1) = sifted
    at perm result beyond ⊢
  have size : sifted.size = heap.size := by simpa using perm.length_eq
  have last : sifted[heap.size - 1]? = some heap[0] := by
    rw [beyond _ (Nat.le_refl _)]
    simp only [Array.swapIfInBounds, nonempty, ↓reduceDIte]
    rw [dif_pos (by omega), Array.getElem?_swap]
    simp
  have split : sifted.toList = sifted.pop.toList ++ [heap[0]] := by
    have isLast : sifted.toList.getLast? = some heap[0] := by
      rw [List.getLast?_eq_getElem?]
      simpa [size] using last
    obtain ⟨front, whole⟩ := List.getLast?_eq_some_iff.mp isLast
    simp [Array.toList_pop, whole]
  refine ⟨heap[0], ?_, ?_⟩
  · apply (perm.trans swapped).symm.trans
    rw [split]
    exact List.perm_append_singleton _ _
  · have kept : Ranks less rank sifted.pop :=
      (ranks.perm (perm.trans swapped)).subset fun item member => by
        rw [Array.mem_def, split]
        exact List.mem_append_left _ (Array.mem_def.mp member)
    apply (ordered_iff kept).mpr
    intro k positive within
    have smaller := parent_lt positive
    rw [Array.size_pop, size] at within
    have same (k : Nat) (within : k < heap.size - 1) :
        rankAt rank sifted.pop k = rankAt rank sifted k := by
      rw [rankAt_eq (by simp [size]; omega), rankAt_eq (by omega), Array.getElem_pop]
    rw [same k within, same (parent k) (by omega)]
    exact result k positive within

theorem first_le {top item : α} (ranks : Ranks less rank heap) (ordered : Ordered less heap)
    (first : heap[0]? = some top) (member : item ∈ heap) : rank top ≤ rank item := by
  obtain ⟨nonempty, rfl⟩ := Array.getElem?_eq_some_iff.mp first
  obtain ⟨k, within, rfl⟩ := Array.mem_iff_getElem.mp member
  have least := ((ordered_iff ranks).mp ordered).first_le k within
  rwa [rankAt_eq nonempty, rankAt_eq within] at least

theorem empty_ordered : Ordered less (#[] : Array α) := by
  intro i positive within
  simp at within

end BVisor.Data.Heap
