import Mathlib

/-! Numbers as big-endian byte strings of a fixed length. -/

namespace BVisor.Data

/-- The last `count` base-256 digits of a number, the most significant first. -/
def bigEndian : Nat → Nat → List (BitVec 8)
  | 0, _ => []
  | count + 1, value => bigEndian count (value / 256) ++ [BitVec.ofNat 8 value]

def ofBigEndian (bytes : List (BitVec 8)) : Nat :=
  bytes.foldl (fun value byte => value * 256 + byte.toNat) 0

@[simp] theorem bigEndian_length (count value : Nat) : (bigEndian count value).length = count := by
  induction count generalizing value with
  | zero => rfl
  | succ count ih => simp [bigEndian, ih]

theorem ofBigEndian_concat (bytes : List (BitVec 8)) (byte : BitVec 8) :
    ofBigEndian (bytes ++ [byte]) = ofBigEndian bytes * 256 + byte.toNat := by
  simp [ofBigEndian]

theorem ofBigEndian_bigEndian (count value : Nat) :
    ofBigEndian (bigEndian count value) = value % 256 ^ count := by
  induction count generalizing value with
  | zero => simp [bigEndian, ofBigEndian, Nat.mod_one]
  | succ count ih =>
    have byte : (BitVec.ofNat 8 value).toNat = value % 256 := BitVec.toNat_ofNat value 8
    rw [bigEndian, ofBigEndian_concat, ih, byte, Nat.pow_succ, Nat.mul_comm (256 ^ count), Nat.mod_mul]
    omega

theorem ofBigEndian_bigEndian_of_lt {count value : Nat} (fits : value < 256 ^ count) :
    ofBigEndian (bigEndian count value) = value := by
  rw [ofBigEndian_bigEndian, Nat.mod_eq_of_lt fits]

theorem bigEndian_ofBigEndian (bytes : List (BitVec 8)) : bigEndian bytes.length (ofBigEndian bytes) = bytes := by
  induction size : bytes.length generalizing bytes with
  | zero => exact (List.length_eq_zero_iff.mp size).symm
  | succ count ih =>
    rcases List.eq_nil_or_concat bytes with rfl | ⟨front, byte, rfl⟩
    · cases size
    rw [List.concat_eq_append] at size ⊢
    rw [List.length_append, List.length_singleton] at size
    have high : (ofBigEndian front * 256 + byte.toNat) / 256 = ofBigEndian front := by
      have := byte.isLt
      omega
    have low : BitVec.ofNat 8 (ofBigEndian front * 256 + byte.toNat) = byte := by
      apply BitVec.eq_of_toNat_eq
      have := byte.isLt
      rw [BitVec.toNat_ofNat]
      omega
    rw [bigEndian, ofBigEndian_concat, high, low, ih front (by omega)]

end BVisor.Data
