import Mathlib

/-! The lowest numbers at or above a bound that are not taken, one after the other. -/

namespace BVisor.Data

open List

variable {taken other : Nat → Prop} {m n stop : Nat} {rest numbers : List Nat}

structure LowestFree (taken : Nat → Prop) (m n : Nat) : Prop where
  above : m ≤ n
  free : ¬ taken n
  below : ∀ k, m ≤ k → k < n → taken k

/-- The list holds the lowest free numbers at or above the bound, in increasing order. -/
def LowestFrom (taken : Nat → Prop) : Nat → List Nat → Prop
  | _, [] => True
  | m, n :: rest => LowestFree taken m n ∧ LowestFrom taken (n + 1) rest

def freeIn (taken : Nat → Prop) (m stop : Nat) : Set Nat :=
  {k | m ≤ k ∧ k < stop ∧ ¬ taken k}

theorem freeIn_finite (taken : Nat → Prop) (m stop : Nat) : (freeIn taken m stop).Finite :=
  (Set.finite_lt_nat stop).subset fun _ member => member.2.1

theorem freeIn_card_le (taken : Nat → Prop) (m stop : Nat) :
    (freeIn taken m stop).ncard ≤ stop - m := by
  have subset : freeIn taken m stop ⊆ (Finset.Ico m stop : Set Nat) := by
    intro k member
    rw [Finset.mem_coe, Finset.mem_Ico]
    exact ⟨member.1, member.2.1⟩
  calc (freeIn taken m stop).ncard ≤ (Finset.Ico m stop : Set Nat).ncard :=
        Set.ncard_le_ncard subset (Finset.finite_toSet _)
    _ = stop - m := by rw [Set.ncard_coe_finset, Nat.card_Ico]

theorem LowestFree.congr (lowest : LowestFree other m n)
    (agree : ∀ k, m ≤ k → (other k ↔ taken k)) : LowestFree taken m n where
  above := lowest.above
  free := fun occupied => lowest.free ((agree n lowest.above).mpr occupied)
  below := fun k from_m to_n => (agree k from_m).mp (lowest.below k from_m to_n)

theorem LowestFrom.congr (lowest : LowestFrom other m numbers)
    (agree : ∀ k, m ≤ k → (other k ↔ taken k)) : LowestFrom taken m numbers := by
  induction numbers generalizing m with
  | nil => trivial
  | cons n rest ih =>
    obtain ⟨first, later⟩ := lowest
    have above := first.above
    exact ⟨first.congr agree, ih later fun k from_n => agree k (by omega)⟩

theorem LowestFree.next (lowest : LowestFree other m n) (occupied : other m)
    (agree : ∀ k, m < k → (other k ↔ taken k)) : LowestFree taken (m + 1) n := by
  have different : n ≠ m := fun equal => lowest.free (equal ▸ occupied)
  have above := lowest.above
  have later : LowestFree other (m + 1) n :=
    ⟨by omega, lowest.free, fun k from_m to_n => lowest.below k (by omega) to_n⟩
  exact later.congr fun k from_m => agree k (by omega)

theorem LowestFrom.next (lowest : LowestFrom other m numbers) (occupied : other m)
    (agree : ∀ k, m < k → (other k ↔ taken k)) : LowestFrom taken (m + 1) numbers := by
  cases numbers with
  | nil => trivial
  | cons n rest =>
    obtain ⟨first, later⟩ := lowest
    have moved := first.next occupied agree
    have above := moved.above
    exact ⟨moved, later.congr fun k from_n => agree k (by omega)⟩

section

variable (lowest : LowestFrom taken m numbers)
include lowest

theorem LowestFrom.above : ∀ n ∈ numbers, m ≤ n := by
  induction numbers generalizing m with
  | nil => exact fun n member => (nomatch member)
  | cons head tail ih =>
    intro n member
    have first := lowest.1.above
    obtain rfl | later := mem_cons.mp member
    · exact first
    · have := ih lowest.2 n later
      omega

theorem LowestFrom.free : ∀ n ∈ numbers, ¬ taken n := by
  induction numbers generalizing m with
  | nil => exact fun n member => (nomatch member)
  | cons head tail ih =>
    intro n member
    obtain rfl | later := mem_cons.mp member
    · exact lowest.1.free
    · exact ih lowest.2 n later

theorem LowestFrom.increasing : numbers.Pairwise (· < ·) := by
  induction numbers generalizing m with
  | nil => exact .nil
  | cons head tail ih =>
    exact .cons (fun n later => lowest.2.above n later) (ih lowest.2)

theorem LowestFrom.length_le
    (bounded : ∀ n ∈ numbers, n < stop) : numbers.length ≤ (freeIn taken m stop).ncard := by
  have distinct : numbers.Nodup := lowest.increasing.imp Nat.ne_of_lt
  have subset : {n | n ∈ numbers} ⊆ freeIn taken m stop := fun n member =>
    ⟨lowest.above n member, bounded n member, lowest.free n member⟩
  have card : {n | n ∈ numbers}.ncard = numbers.length := by
    rw [show {n | n ∈ numbers} = (numbers.toFinset : Set Nat) by ext; simp,
      Set.ncard_coe_finset, toFinset_card_of_nodup distinct]
  rw [← card]
  exact Set.ncard_le_ncard subset (freeIn_finite taken m stop)

end

/-- Where the search goes on after the numbers of a list. -/
def searchFrom (m : Nat) (numbers : List Nat) : Nat :=
  match numbers.getLast? with
  | none => m
  | some last => last + 1

theorem searchFrom_cons (m n : Nat) (rest : List Nat) : searchFrom m (n :: rest) = searchFrom (n + 1) rest := by
  cases rest with
  | nil => rfl
  | cons head tail => simp [searchFrom, List.getLast?_cons]

/-- The number that is next after a list, when the search began with a number just taken. -/
theorem LowestFree.searchNext (lowest : LowestFree other (searchFrom m numbers) n)
    (found : LowestFrom taken (m + 1) numbers) (occupied : other m) (agree : ∀ k, m < k → (other k ↔ taken k)) :
    LowestFree taken (searchFrom (m + 1) numbers) n := by
  cases last : numbers.getLast? with
  | none =>
    simp only [searchFrom, last] at lowest ⊢
    exact lowest.next occupied agree
  | some final =>
    have above := found.above final (mem_of_getLast? last)
    simp only [searchFrom, last] at lowest ⊢
    exact lowest.congr fun k beyond => agree k (by omega)

theorem LowestFrom.exhausted (lowest : LowestFrom taken m numbers)
    (stuck : LowestFree taken (searchFrom m numbers) n) (out : stop ≤ n) :
    (freeIn taken m stop).ncard ≤ numbers.length := by
  have subset : freeIn taken m stop ⊆ {k | k ∈ numbers} := by
    induction numbers generalizing m with
    | nil =>
      intro k member
      obtain ⟨above, below, free⟩ := member
      exact absurd (stuck.below k above (by omega)) free
    | cons head tail ih =>
      rw [searchFrom_cons] at stuck
      intro k member
      obtain ⟨above, below, free⟩ := member
      by_cases same : k = head
      · exact mem_cons.mpr (.inl same)
      have beyond : head < k := by
        by_contra before
        exact free (lowest.1.below k above (by omega))
      exact mem_cons_of_mem _ (ih lowest.2 stuck ⟨by omega, below, free⟩)
  calc (freeIn taken m stop).ncard ≤ {k | k ∈ numbers}.ncard :=
        Set.ncard_le_ncard subset (finite_toSet numbers)
    _ = (numbers.toFinset : Set Nat).ncard := by congr 1; ext; simp
    _ ≤ numbers.length := by
        rw [Set.ncard_coe_finset]
        exact toFinset_card_le numbers

end BVisor.Data
