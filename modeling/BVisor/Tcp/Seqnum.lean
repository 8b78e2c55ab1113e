import Mathlib

/-! Sequence numbers: 32 bits that wrap around, compared by the sign of their difference. Numbers
that count from a common base and are less than half the space apart compare as the counts do. -/

namespace BVisor.Tcp

abbrev Seqnum := BitVec 32

namespace Seqnum

/-- `int32(v-w) < 0`. -/
def lessThan (v w : Seqnum) : Bool := decide ((v - w).toInt < 0)

def lessThanEq (v w : Seqnum) : Bool := v == w || lessThan v w

def inRange (v a b : Seqnum) : Bool := (v - a).ult (b - a)

def add (v : Seqnum) (s : BitVec 32) : Seqnum := v + s

def inWindow (v first : Seqnum) (size : BitVec 32) : Bool := inRange v first (add first size)

/-- The size of the window from `v` to `w`. -/
def size (v w : Seqnum) : BitVec 32 := w - v

def after (base : Seqnum) (count : Nat) : Seqnum := base + BitVec.ofNat 32 count

variable {base : Seqnum} {a b : Nat}

theorem after_add (k : Nat) : after base a + BitVec.ofNat 32 k = after base (a + k) := by
  unfold after
  rw [BitVec.add_assoc, BitVec.ofNat_add]

theorem after_sub_toNat :
    (after base a - after base b).toNat = (a + (2 ^ 32 - b % 2 ^ 32)) % 2 ^ 32 := by
  simp only [after, BitVec.toNat_sub, BitVec.toNat_add, BitVec.toNat_ofNat]
  omega

theorem lessThan_iff (v w : Seqnum) : lessThan v w = true ↔ 2 ^ 31 ≤ (v - w).toNat := by
  unfold lessThan
  rw [decide_eq_true_iff, BitVec.toInt_eq_toNat_cond]
  have bound := (v - w).isLt
  split <;> omega

theorem lessThan_after (near : a < b + 2 ^ 31) (near' : b ≤ a + 2 ^ 31) :
    lessThan (after base a) (after base b) = true ↔ a < b := by
  rw [lessThan_iff, after_sub_toNat]
  omega

theorem after_inj (near : a < b + 2 ^ 32) (near' : b < a + 2 ^ 32) : after base a = after base b ↔ a = b := by
  constructor
  · intro same
    have difference := @after_sub_toNat base a b
    rw [same, BitVec.sub_self] at difference
    simp only [BitVec.toNat_zero] at difference
    omega
  · intro same
    rw [same]

theorem inWindow_after {size : BitVec 32} (near : a < b + 2 ^ 31) (near' : b < a + 2 ^ 31)
    (small : size.toNat ≤ 2 ^ 31) :
    inWindow (after base a) (after base b) size = true ↔ b ≤ a ∧ a < b + size.toNat := by
  unfold inWindow inRange add
  rw [BitVec.ult, decide_eq_true_iff, after_sub_toNat]
  have width : (after base b + size - after base b).toNat = size.toNat := by
    rw [BitVec.add_comm, BitVec.add_sub_cancel]
  rw [width]
  omega

theorem size_after (ahead : a ≤ b) (near : b < a + 2 ^ 32) :
    (size (after base a) (after base b)).toNat = b - a := by
  unfold size
  rw [after_sub_toNat]
  omega

theorem eq_after {v w : Seqnum} (known : w = after base a) (positive : 0 ≤ (a : Int) + (v - w).toInt) :
    v = after base ((a : Int) + (v - w).toInt).toNat := by
  apply BitVec.eq_of_toNat_eq
  subst known
  rw [BitVec.toInt_eq_toNat_cond] at positive ⊢
  simp only [after, BitVec.toNat_sub, BitVec.toNat_add, BitVec.toNat_ofNat] at positive ⊢
  have bound := v.isLt
  split at positive <;> simp only [*, ↓reduceIte] <;> omega

def offset (base v : Seqnum) : Nat := (v - base).toNat

variable {v w start : Seqnum}

theorem offset_eq : offset base v = (v.toNat + (2 ^ 32 - base.toNat)) % 2 ^ 32 := by
  unfold offset
  rw [BitVec.toNat_sub, Nat.add_comm]

@[simp] theorem offset_self : offset base base = 0 := by
  unfold offset
  rw [BitVec.sub_self]
  rfl

theorem offset_inj (same : offset base v = offset base w) : v = w := by
  apply BitVec.eq_of_toNat_eq
  rw [offset_eq, offset_eq] at same
  omega

theorem size_offset (ahead : offset base v ≤ offset base w) :
    (size v w).toNat = offset base w - offset base v := by
  unfold size
  rw [BitVec.toNat_sub]
  rw [offset_eq, offset_eq] at ahead ⊢
  omega

/-- Numbers in the half of the space that follows `base` compare as their offsets do. -/
theorem lessThan_offset (nearV : offset base v < 2 ^ 31) (nearW : offset base w < 2 ^ 31) :
    lessThan v w = decide (offset base v < offset base w) := by
  rw [Bool.eq_iff_iff, lessThan_iff, decide_eq_true_eq, BitVec.toNat_sub]
  rw [offset_eq] at nearV nearW
  rw [offset_eq, offset_eq]
  omega

theorem lessThanEq_offset (nearV : offset base v < 2 ^ 31) (nearW : offset base w < 2 ^ 31) :
    lessThanEq v w = decide (offset base v ≤ offset base w) := by
  unfold lessThanEq
  rw [lessThan_offset nearV nearW, Bool.eq_iff_iff, Bool.or_eq_true, beq_iff_eq,
    decide_eq_true_eq, decide_eq_true_eq]
  constructor
  · rintro (rfl | before)
    · exact Nat.le_refl _
    · exact Nat.le_of_lt before
  · intro within
    rcases Nat.lt_or_eq_of_le within with before | same
    · exact .inr before
    · exact .inl (offset_inj same)

theorem offset_add {count : BitVec 32} (small : offset base v + count.toNat < 2 ^ 32) :
    offset base (v + count) = offset base v + count.toNat := by
  rw [offset_eq] at small ⊢
  rw [offset_eq, BitVec.toNat_add]
  omega

theorem offset_rebase (ahead : offset base start ≤ offset base v) :
    offset start v = offset base v - offset base start :=
  size_offset ahead

theorem inRange_offset : inRange v base w = decide (offset base v < offset base w) := rfl

theorem offset_of_inRange_pred (within : inRange (v - 1) base w = true) :
    0 < offset base v ∧ offset base v ≤ offset base w := by
  rw [inRange_offset, decide_eq_true_eq, offset_eq, offset_eq, BitVec.toNat_sub] at within
  rw [offset_eq, offset_eq]
  have one : (1 : Seqnum).toNat = 1 := rfl
  rw [one] at within
  omega

/-- A number that follows `base`, and that is followed by one that lies close after `base`, lies
between them. -/
theorem offset_between (after : lessThan base v = true) (before : lessThan v w = true)
    (positive : 0 < offset base w) (near : offset base w < 2 ^ 31) :
    offset base v < offset base w := by
  rw [lessThan_iff, BitVec.toNat_sub] at after before
  rw [offset_eq] at positive near
  rw [offset_eq, offset_eq]
  omega

end Seqnum

end BVisor.Tcp
