import Mathlib

/-!
# Bitmaps of descriptors

The blocks are 64-bit words. The numbers of bits stay far below `2 ^ 32`, so that the counters
are natural numbers here.
-/

namespace BVisor.Descriptors

open List

structure Bitmap where
  numOnes : Nat
  bitBlock : List (BitVec 64)
  deriving DecidableEq

def trailingZeros64 (w : BitVec 64) : Nat :=
  ((List.range 64).find? fun i => w.getLsbD i).getD 64

def leadingZeros64 (w : BitVec 64) : Nat :=
  ((List.range 64).find? fun i => w.getMsbD i).getD 64

namespace Bitmap

variable (b : Bitmap)

def has (i : Nat) : Bool :=
  (b.bitBlock.getD (i / 64) 0).getLsbD (i % 64)

def new (size : Nat) : Bitmap :=
  ⟨0, List.replicate ((size + 63) / 64) 0⟩

def isEmpty : Bool :=
  b.numOnes == 0

def scanZero : List (BitVec 64) → Nat → Option Nat
  | [], _ => none
  | w :: rest, i =>
    if w ≠ BitVec.allOnes 64 then
      some (trailingZeros64 (~~~w) + i * 64)
    else
      scanZero rest (i + 1)

def firstZero (start : Nat) : Option Nat :=
  let i := start / 64
  match b.bitBlock.drop i with
  | [] => none
  | w :: rest => scanZero ((w ||| ((1#64 <<< (start % 64)) - 1)) :: rest) i

def scanOne : List (BitVec 64) → Nat → Option Nat
  | [], _ => none
  | w :: rest, i =>
    if w ≠ 0 then some (trailingZeros64 w + i * 64) else scanOne rest (i + 1)

def firstOne (start : Nat) : Option Nat :=
  let i := start / 64
  match b.bitBlock.drop i with
  | [] => none
  | w :: rest => scanOne ((w &&& (BitVec.allOnes 64 <<< (start % 64))) :: rest) i

/-- The blocks are searched from the last one down; the index of a block is the number of blocks
before it. -/
def scanMaximum : List (BitVec 64) → Nat
  | [] => 0
  | w :: rest => if w ≠ 0 then rest.length * 64 + 63 - leadingZeros64 w else scanMaximum rest

def maximum : Nat :=
  scanMaximum b.bitBlock.reverse

def add (i : Nat) : Bitmap :=
  let blockNum := i / 64
  let blocks :=
    if b.bitBlock.length ≤ blockNum then
      b.bitBlock ++ List.replicate (blockNum - b.bitBlock.length + 1) 0
    else
      b.bitBlock
  let oldBlock := blocks.getD blockNum 0
  let newBlock := oldBlock ||| (1#64 <<< (i % 64))
  if oldBlock ≠ newBlock then
    ⟨b.numOnes + 1, blocks.set blockNum newBlock⟩
  else
    ⟨b.numOnes, blocks⟩

/-- A block out of range is a panic. -/
def remove (i : Nat) : Option Bitmap :=
  let blockNum := i / 64
  match b.bitBlock[blockNum]? with
  | none => none
  | some oldBlock =>
    let newBlock := oldBlock &&& ~~~(1#64 <<< (i % 64))
    if oldBlock ≠ newBlock then
      some ⟨b.numOnes - 1, b.bitBlock.set blockNum newBlock⟩
    else
      some b

def blockOnes (w : BitVec 64) : List Nat :=
  (List.range 64).filter fun j => w.getLsbD j

def onesAt (stop i : Nat) : List Nat :=
  let blockMask := if i = stop / 64 then (1#64 <<< (stop % 64)) - 1 else BitVec.allOnes 64
  (blockOnes (b.bitBlock.getD i 0 &&& blockMask)).map (i * 64 + ·)

/-- The end of the blocks that a search up to `stop` meets, in 32-bit arithmetic. -/
def blockEnd (stop : Nat) : Nat :=
  min ((stop + 63) % 2 ^ 32 / 64) b.bitBlock.length

end Bitmap

/-- `Bitmap.ForEach` from 0, by a caller that never stops it. A block is read when its turn comes,
from the state that the earlier calls left. -/
def forEach {σ : Type} (read : σ → Bitmap) (stop : Nat) (visit : σ → Nat → Option σ) (s : σ) : Option σ :=
  (List.range ((read s).blockEnd stop)).foldlM (fun s i => ((read s).onesAt stop i).foldlM visit s) s

/-! ## Words -/

variable {b : Bitmap} {i j start stop : Nat} {w : BitVec 64}

theorem lowMask_getLsbD (within : i < 64) (j : Nat) :
    ((1#64 <<< i) - 1).getLsbD j = decide (j < i) := by
  have value : ((1#64 <<< i) - 1).toNat = 2 ^ i - 1 := by
    have power : (1#64 <<< i).toNat = 2 ^ i := BitVec.toNat_twoPow_of_lt within
    have small := (1#64 <<< i).isLt
    have positive := Nat.two_pow_pos i
    have one : (1 : BitVec 64).toNat = 1 := rfl
    rw [power] at small
    rw [BitVec.toNat_sub, power, one]
    omega
  rw [BitVec.getLsbD, value, Nat.testBit_two_pow_sub_one]

theorem bitMask_getLsbD (within : i < 64) (j : Nat) :
    (1#64 <<< i).getLsbD j = decide (j = i) := by
  have bits := BitVec.getLsbD_twoPow (w := 64) i j
  rw [BitVec.twoPow, decide_eq_true within, Bool.true_and] at bits
  rw [bits, decide_eq_decide.mpr eq_comm]

theorem eq_zero_iff : w = 0 ↔ ∀ k < 64, (!w.getLsbD k) = true := by
  refine ⟨fun zero => by simp [zero], fun unset => BitVec.eq_of_getLsbD_eq fun k within => ?_⟩
  simpa using unset k within

theorem leadingZeros64_spec (nonzero : w ≠ 0) :
    leadingZeros64 w < 64 ∧ w.getLsbD (63 - leadingZeros64 w) = true ∧
      ∀ j, 63 - leadingZeros64 w < j → w.getLsbD j = false := by
  have mirrored : ∀ j < 64, w.getMsbD (63 - j) = w.getLsbD j := by
    intro j within
    rw [BitVec.getMsbD_eq_getLsbD, decide_eq_true (by omega), Bool.true_and]
    congr 1
    omega
  cases found : (range 64).find? fun i => w.getMsbD i with
  | none =>
    refine absurd (eq_zero_iff.mpr fun j within => ?_) nonzero
    rw [← mirrored j within]
    exact find?_range_eq_none.mp found (63 - j) (by omega)
  | some k =>
    simp only [leadingZeros64, found, Option.getD_some]
    obtain ⟨set, member, earlier⟩ := find?_range_eq_some.mp found
    have within := mem_range.mp member
    refine ⟨within, ?_, fun j above => ?_⟩
    · rw [← mirrored _ (by omega), Nat.sub_sub_self (by omega)]
      exact set
    · by_cases inside : j < 64
      · have unset := earlier (63 - j) (by omega)
        rwa [mirrored j inside, Bool.not_eq_true'] at unset
      · exact BitVec.getLsbD_of_ge w j (by omega)

/-! ## Single bits -/

theorem Bitmap.has_lt (set : b.has i = true) : i < b.bitBlock.length * 64 := by
  by_contra outside
  have none : b.bitBlock[i / 64]? = none := getElem?_eq_none (by omega)
  simp [Bitmap.has, getD, none] at set

theorem Bitmap.has_new (size i : Nat) : (Bitmap.new size).has i = false := by
  simp only [Bitmap.has, Bitmap.new, getD, getElem?_replicate]
  split <;> simp

variable {blocks : List (BitVec 64)} {rest : List (BitVec 64)} {g : Nat} {σ : Type} {n : Nat}
  {visit : σ → Nat → Option σ} {read : σ → Bitmap}

namespace Bitmap

/-- Changing one bit of a block. -/
theorem has_update {f : Bool → Bool → Bool} (keeps : ∀ bit, f bit false = bit)
    (inside : i / 64 < blocks.length)
    (bits : ∀ k, k < 64 → w.getLsbD k = f ((blocks.getD (i / 64) 0).getLsbD k) (decide (k = i % 64)))
    (j : Nat) : (mk n (blocks.set (i / 64) w)).has j = f ((mk n blocks).has j) (decide (j = i)) := by
  by_cases here : j / 64 = i / 64
  · have same : j % 64 = i % 64 ↔ j = i := by omega
    have found : ((blocks.set (i / 64) w).getD (i / 64) 0) = w := by simp [inside]
    simp only [has, here, found, bits _ (Nat.mod_lt j (by decide)), same]
  · have different : j ≠ i := fun equal => here (by rw [equal])
    simp only [has, getD, getElem?_set_ne (Ne.symm here), different, decide_false, keeps]

theorem has_append (more j : Nat) :
    (mk n (blocks ++ replicate more 0)).has j = (mk n blocks).has j := by
  simp only [has, getD]
  by_cases inside : j / 64 < blocks.length
  · rw [getElem?_append_left inside]
  · rw [getElem?_append_right (by omega), getElem?_replicate, getElem?_eq_none (by omega)]
    split <;> simp

def extended (b : Bitmap) (i : Nat) : List (BitVec 64) :=
  if b.bitBlock.length ≤ i / 64 then
    b.bitBlock ++ List.replicate (i / 64 - b.bitBlock.length + 1) 0
  else
    b.bitBlock

theorem extended_length (b : Bitmap) (i : Nat) : i / 64 < (b.extended i).length := by
  simp only [extended]
  split
  · simp only [length_append, length_replicate]
    omega
  · omega

theorem has_extended (b : Bitmap) (i j n : Nat) :
    (mk n (b.extended i)).has j = b.has j := by
  simp only [extended]
  split
  · rw [has_append]
    rfl
  · rfl

theorem add_spec (b : Bitmap) (i : Nat) :
    (∀ j, (b.add i).has j = (b.has j || decide (j = i))) ∧
      (b.add i).numOnes = if b.has i then b.numOnes else b.numOnes + 1 := by
  have inside := b.extended_length i
  have within : i % 64 < 64 := Nat.mod_lt i (by decide)
  let old := (b.extended i).getD (i / 64) 0
  let new := old ||| 1#64 <<< (i % 64)
  have current : old.getLsbD (i % 64) = b.has i := b.has_extended i i 0
  have newBits : ∀ k, new.getLsbD k = (old.getLsbD k || decide (k = i % 64)) := by
    intro k
    rw [BitVec.getLsbD_or, bitMask_getLsbD within]
  by_cases set : b.has i = true
  · have unchanged : old = new := by
      apply BitVec.eq_of_getLsbD_eq
      intro k _
      rw [newBits]
      by_cases here : k = i % 64 <;> simp [here, current, set]
    have result : b.add i = ⟨b.numOnes, b.extended i⟩ := if_neg (not_not.mpr unchanged)
    rw [result]
    refine ⟨fun j => ?_, (if_pos set).symm⟩
    rw [has_extended]
    by_cases here : j = i <;> simp [here, set]
  · have changed : old ≠ new := by
      intro equal
      rw [← current, equal, newBits] at set
      simp at set
    have result : b.add i = ⟨b.numOnes + 1, (b.extended i).set (i / 64) new⟩ := if_pos changed
    rw [result]
    refine ⟨fun j => ?_, (if_neg set).symm⟩
    rw [has_update Bool.or_false inside fun k _ => newBits k, has_extended]

theorem remove_spec (set : b.has i = true) :
    ∃ after, b.remove i = some after ∧
      (∀ j, after.has j = (b.has j && decide (j ≠ i))) ∧ after.numOnes = b.numOnes - 1 := by
  have within : i % 64 < 64 := Nat.mod_lt i (by decide)
  have inside : i / 64 < b.bitBlock.length := by
    have := has_lt set
    omega
  let old := b.bitBlock.getD (i / 64) 0
  let new := old &&& ~~~(1#64 <<< (i % 64))
  have block : b.bitBlock[i / 64]? = some old := by simp [old, inside]
  have newBits : ∀ k, k < 64 → new.getLsbD k = (old.getLsbD k && !decide (k = i % 64)) := by
    intro k small
    rw [BitVec.getLsbD_and, BitVec.getLsbD_not, bitMask_getLsbD within]
    simp [small]
  have changed : old ≠ new := by
    intro equal
    change old.getLsbD (i % 64) = true at set
    rw [equal, newBits _ within] at set
    simp at set
  refine ⟨⟨b.numOnes - 1, b.bitBlock.set (i / 64) new⟩, ?_, fun j => ?_, rfl⟩
  · simp only [remove, block]
    exact if_pos changed
  · rw [has_update (f := fun bit clears => bit && !clears) (by simp) inside newBits, decide_not]
    rfl

end Bitmap

/-! ## Searches -/

def bitFrom (blocks : List (BitVec 64)) (i g : Nat) : Bool :=
  (blocks.getD (g / 64 - i) 0).getLsbD (g % 64)

theorem bitFrom_head (below : g < (i + 1) * 64) :
    bitFrom (w :: rest) i g = w.getLsbD (g % 64) := by
  have first : g / 64 - i = 0 := by omega
  simp only [bitFrom, first, getD_cons_zero]

theorem bitFrom_tail (above : (i + 1) * 64 ≤ g) :
    bitFrom (w :: rest) i g = bitFrom rest (i + 1) g := by
  have later : g / 64 - i = g / 64 - (i + 1) + 1 := by omega
  simp only [bitFrom, later, getD_cons_succ]

theorem bitFrom_drop (b : Bitmap) (above : i * 64 ≤ g) :
    bitFrom (b.bitBlock.drop i) i g = b.has g := by
  have index : i + (g / 64 - i) = g / 64 := by omega
  simp only [bitFrom, Bitmap.has, getD, getElem?_drop, index]

theorem bitFrom_not (above : i * 64 ≤ g) (below : g < (i + blocks.length) * 64) :
    bitFrom (blocks.map (~~~·)) i g = !bitFrom blocks i g := by
  have inside : g / 64 - i < blocks.length := by omega
  simp [bitFrom, getD, getElem?_eq_getElem inside, Nat.mod_lt]

namespace Bitmap

/-- The search meets the bits one by one. -/
theorem scanOne_eq (blocks : List (BitVec 64)) (i : Nat) :
    scanOne blocks i = (range' (i * 64) (blocks.length * 64)).find? (bitFrom blocks i) := by
  induction blocks generalizing i with
  | nil => rfl
  | cons w rest ih =>
    have blocks : range' (i * 64) ((w :: rest).length * 64) =
        (range 64).map (i * 64 + ·) ++ range' ((i + 1) * 64) (rest.length * 64) := by
      rw [← range'_eq_map_range, Nat.succ_mul, range'_append_1, length_cons, Nat.succ_mul, Nat.add_comm]
    have first : ((range 64).map (i * 64 + ·)).find? (bitFrom (w :: rest) i) =
        ((range 64).find? fun k => w.getLsbD k).map (i * 64 + ·) := by
      rw [find?_map]
      refine congrArg _ (find?_congr fun k member => ?_)
      have small := mem_range.mp member
      have bit : (i * 64 + k) % 64 = k := by omega
      rw [Function.comp_apply, bitFrom_head (by omega), bit]
    have later : (range' ((i + 1) * 64) (rest.length * 64)).find? (bitFrom (w :: rest) i) =
        scanOne rest (i + 1) := by
      rw [ih]
      exact find?_congr fun g member => bitFrom_tail (mem_range'_1.mp member).1
    rw [blocks, find?_append, first, later, scanOne]
    cases found : (range 64).find? fun k => w.getLsbD k with
    | none =>
      have zero := eq_zero_iff.mpr (find?_range_eq_none.mp found)
      rw [if_neg (not_not.mpr zero)]
      rfl
    | some k =>
      have nonzero : w ≠ 0 := by
        rintro rfl
        simpa using find?_some found
      rw [if_pos nonzero, trailingZeros64, found, Nat.add_comm]
      rfl

/-- Looking for a zero is looking for a one in the complement. -/
theorem scanZero_eq (blocks : List (BitVec 64)) (i : Nat) :
    scanZero blocks i = scanOne (blocks.map (~~~·)) i := by
  induction blocks generalizing i with
  | nil => rfl
  | cons w rest ih =>
    have full : ~~~w ≠ 0 ↔ w ≠ BitVec.allOnes 64 := by
      have ones : ~~~(0 : BitVec 64) = BitVec.allOnes 64 := by decide
      rw [ne_eq, BitVec.not_eq_comm, ones]
    simp only [scanZero, map_cons, scanOne, ih, full]

/-- A search through words that hold a property of the positions from `start` on. -/
theorem scanOne_search (start : Nat) (blocks : List (BitVec 64)) (p : Nat → Bool)
    (masked : ∀ g, start / 64 * 64 ≤ g → g < (start / 64 + blocks.length) * 64 →
      bitFrom blocks (start / 64) g = (p g && decide (start ≤ g))) :
    match scanOne blocks (start / 64) with
    | some z => start ≤ z ∧ z < (start / 64 + blocks.length) * 64 ∧ p z = true ∧
        ∀ g, start ≤ g → g < z → p g = false
    | none => ∀ g, start ≤ g → g < (start / 64 + blocks.length) * 64 → p g = false := by
  rw [scanOne_eq]
  rw [Nat.add_mul] at masked ⊢
  split
  · next z found =>
    obtain ⟨one, member, zeros⟩ := find?_range'_eq_some.mp found
    obtain ⟨inside, below⟩ := mem_range'_1.mp member
    rw [masked z inside below] at one
    obtain ⟨set, above⟩ := Bool.and_eq_true_iff.mp one
    refine ⟨of_decide_eq_true above, below, set, fun g from_start to_z => ?_⟩
    have zero := zeros g (by omega) to_z
    rw [masked g (by omega) (by omega)] at zero
    simpa [from_start] using zero
  · next found =>
    intro g from_start below
    have zero := find?_range'_eq_none.mp found g (by omega) below
    rw [masked g (by omega) below] at zero
    simpa [from_start] using zero

theorem drop_length (dropped : b.bitBlock.drop n = w :: rest) :
    n + (w :: rest).length = b.bitBlock.length := by
  have lengths := congrArg length dropped
  simp only [length_drop, length_cons] at lengths ⊢
  omega

theorem firstOne_spec (b : Bitmap) (start : Nat) :
    match b.firstOne start with
    | some z => start ≤ z ∧ b.has z = true ∧ ∀ g, start ≤ g → g < z → b.has g = false
    | none => ∀ g, start ≤ g → b.has g = false := by
  cases blocks : b.bitBlock.drop (start / 64) with
  | nil =>
    simp only [firstOne, blocks]
    intro g above
    rw [← bitFrom_drop b (i := start / 64) (by omega), blocks]
    simp [bitFrom]
  | cons w rest =>
    have found := scanOne_search start ((w &&& (BitVec.allOnes 64 <<< (start % 64))) :: rest) b.has
      fun g above _ => by
        rw [← bitFrom_drop b above, blocks]
        by_cases first : g < (start / 64 + 1) * 64
        · have position : start % 64 ≤ g % 64 ↔ start ≤ g := by omega
          rw [bitFrom_head first, bitFrom_head first, BitVec.getLsbD_and,
            BitVec.getLsbD_shiftLeft, BitVec.getLsbD_allOnes]
          by_cases later : start ≤ g
          · simp [later, position.mpr later, Nat.mod_lt]
            omega
          · have : g % 64 < start % 64 := by omega
            simp [later, this]
        · rw [bitFrom_tail (by omega), bitFrom_tail (by omega)]
          have later : start ≤ g := by omega
          simp [later]
    rw [length_cons, ← length_cons (a := w), drop_length blocks] at found
    simp only [firstOne, blocks]
    split at found
    · exact ⟨found.1, found.2.2⟩
    intro g from_start
    cases set : b.has g with
    | false => rfl
    | true => exact set.symm.trans (found g from_start (has_lt set))

theorem firstZero_spec (b : Bitmap) (start : Nat) :
    match b.firstZero start with
    | some z => start ≤ z ∧ z < b.bitBlock.length * 64 ∧ b.has z = false ∧
        ∀ g, start ≤ g → g < z → b.has g = true
    | none => ∀ g, start ≤ g → g < b.bitBlock.length * 64 → b.has g = true := by
  cases blocks : b.bitBlock.drop (start / 64) with
  | nil =>
    simp only [firstZero, blocks]
    intro g above below
    have outside := drop_eq_nil_iff.mp blocks
    omega
  | cons w rest =>
    have found := scanOne_search start (((w ||| ((1#64 <<< (start % 64)) - 1)) :: rest).map (~~~·))
      (fun g => !b.has g) fun g above below => by
        rw [length_map] at below
        rw [bitFrom_not above below, ← bitFrom_drop b above, blocks]
        by_cases first : g < (start / 64 + 1) * 64
        · have position : g % 64 < start % 64 ↔ ¬ start ≤ g := by omega
          rw [bitFrom_head first, bitFrom_head first, BitVec.getLsbD_or,
            lowMask_getLsbD (Nat.mod_lt start (by decide))]
          by_cases later : start ≤ g <;> simp [position, later]
        · rw [bitFrom_tail (by omega), bitFrom_tail (by omega)]
          have later : start ≤ g := by omega
          simp [later]
    rw [length_map, length_cons, ← length_cons (a := w), drop_length blocks] at found
    simp only [Bool.not_eq_true', Bool.not_eq_false'] at found
    simp only [firstZero, blocks, scanZero_eq]
    exact found

/-! ## The number of ones and the largest one -/

def Counted (b : Bitmap) : Prop :=
  b.numOnes = {i | b.has i = true}.ncard

theorem ones_finite (b : Bitmap) : {i | b.has i = true}.Finite :=
  (Set.finite_lt_nat (b.bitBlock.length * 64)).subset fun _ set => has_lt set

theorem counted_new (size : Nat) : (new size).Counted := by
  have empty : {i | (new size).has i = true} = ∅ := by
    ext i
    simp [has_new]
  simp only [Counted, empty, Set.ncard_empty]
  rfl

theorem Counted.add (counted : b.Counted) (i : Nat) : (b.add i).Counted := by
  obtain ⟨bits, count⟩ := b.add_spec i
  have ones : {j | (b.add i).has j = true} = insert i {j | b.has j = true} := by
    ext j
    simp [bits, or_comm]
  rw [Counted, count, ones]
  by_cases set : b.has i = true
  · have member : i ∈ {j | b.has j = true} := set
    rw [if_pos set, Set.insert_eq_of_mem member]
    exact counted
  · have fresh : i ∉ {j | b.has j = true} := set
    rw [if_neg set, Set.ncard_insert_of_notMem fresh b.ones_finite]
    exact congrArg (· + 1) counted

theorem Counted.remove {after : Bitmap} (counted : b.Counted) (set : b.has i = true)
    (bits : ∀ j, after.has j = (b.has j && decide (j ≠ i)))
    (count : after.numOnes = b.numOnes - 1) : after.Counted := by
  have ones : {j | after.has j = true} = {j | b.has j = true} \ {i} := by
    ext j
    simp [bits]
  have member : i ∈ {j | b.has j = true} := set
  rw [Counted, count, ones, Set.ncard_sdiff_singleton_of_mem member]
  exact congrArg (· - 1) counted

theorem Counted.isEmpty_iff (counted : b.Counted) : b.isEmpty = true ↔ ∀ i, b.has i = false := by
  have zero : b.isEmpty = true ↔ b.numOnes = 0 := by simp [isEmpty]
  rw [zero, counted, Set.ncard_eq_zero b.ones_finite, Set.eq_empty_iff_forall_notMem]
  simp

theorem scanMaximum_spec (blocks : List (BitVec 64)) :
    (∀ i, bitFrom blocks.reverse 0 i = false) ∨
      bitFrom blocks.reverse 0 (scanMaximum blocks) = true ∧
        ∀ i, scanMaximum blocks < i → bitFrom blocks.reverse 0 i = false := by
  induction blocks with
  | nil => exact .inl fun i => by simp [bitFrom]
  | cons w rest ih =>
    have split : ∀ i, bitFrom (w :: rest).reverse 0 i =
        if i / 64 < rest.length then bitFrom rest.reverse 0 i
        else if i / 64 = rest.length then w.getLsbD (i % 64) else false := by
      intro i
      simp only [bitFrom, reverse_cons, getD, Nat.sub_zero]
      by_cases before : i / 64 < rest.length
      · rw [getElem?_append_left (by simpa using before), if_pos before]
      rw [getElem?_append_right (by simpa using before), if_neg before]
      by_cases last : i / 64 = rest.length
      · simp [last]
      · have beyond : i / 64 - rest.length ≠ 0 := by omega
        simp [last, beyond]
    by_cases empty : w = 0
    · have turn : scanMaximum (w :: rest) = scanMaximum rest := by
        simp [scanMaximum, empty]
      have same : ∀ i, bitFrom (w :: rest).reverse 0 i = bitFrom rest.reverse 0 i := by
        intro i
        rw [split]
        by_cases before : i / 64 < rest.length
        · rw [if_pos before]
        · rw [if_neg before]
          have outside : rest.reverse[i / 64]? = none := getElem?_eq_none (by simpa using before)
          simp [bitFrom, getD, outside, empty]
      simpa only [turn, same] using ih
    obtain ⟨within, one, above⟩ := leadingZeros64_spec empty
    have turn : scanMaximum (w :: rest) = rest.length * 64 + 63 - leadingZeros64 w := if_pos empty
    rw [turn]
    generalize leadingZeros64 w = z at within one above
    refine .inr ⟨?_, fun i larger => ?_⟩
    · rw [split, if_neg (by omega), if_pos (by omega)]
      have : (rest.length * 64 + 63 - z) % 64 = 63 - z := by omega
      rw [this]
      exact one
    · rw [split, if_neg (by omega)]
      split
      · exact above _ (by omega)
      · rfl

theorem maximum_spec (some : ∃ i, b.has i = true) :
    b.has b.maximum = true ∧ ∀ i, b.has i = true → i ≤ b.maximum := by
  have bits : ∀ i, bitFrom b.bitBlock.reverse.reverse 0 i = b.has i := by
    intro i
    simp [bitFrom, has]
  have scan := scanMaximum_spec b.bitBlock.reverse
  simp only [bits] at scan
  obtain none | ⟨set, above⟩ := scan
  · obtain ⟨i, set⟩ := some
    rw [none i] at set
    cases set
  · refine ⟨set, fun i one => ?_⟩
    by_contra larger
    rw [above i (by simp only [maximum] at larger; omega)] at one
    cases one

/-! ## Traversals -/

def ones (b : Bitmap) (stop : Nat) : List Nat :=
  (List.range (b.blockEnd stop)).flatMap (b.onesAt stop)

theorem mem_onesAt (b : Bitmap) (stop i j : Nat) :
    j ∈ b.onesAt stop i ↔
      b.has j = true ∧ j / 64 = i ∧ (i = stop / 64 → j % 64 < stop % 64) := by
  have within : stop % 64 < 64 := Nat.mod_lt stop (by decide)
  have mask : ∀ k < 64, (if i = stop / 64 then (1#64 <<< (stop % 64)) - 1
      else BitVec.allOnes 64).getLsbD k = true ↔ (i = stop / 64 → k < stop % 64) := by
    intro k small
    split
    · next last =>
      rw [lowMask_getLsbD within, decide_eq_true_iff]
      exact ⟨fun below _ => below, fun below => below last⟩
    · next other =>
      rw [BitVec.getLsbD_allOnes, decide_eq_true_iff]
      exact ⟨fun _ last => absurd last other, fun _ => small⟩
  simp only [onesAt, blockOnes, mem_map, mem_filter, mem_range, BitVec.getLsbD_and, Bool.and_eq_true]
  constructor
  · rintro ⟨k, ⟨small, set, masked⟩, rfl⟩
    have block : (i * 64 + k) / 64 = i := by omega
    have bit : (i * 64 + k) % 64 = k := by omega
    refine ⟨?_, block, ?_⟩
    · simpa only [has, block, bit] using set
    · rw [bit]
      exact (mask k small).mp masked
  · rintro ⟨set, rfl, bounded⟩
    have small : j % 64 < 64 := Nat.mod_lt j (by decide)
    exact ⟨j % 64, ⟨small, set, (mask _ small).mpr bounded⟩, by omega⟩

theorem mem_ones (small : stop + 63 < 2 ^ 32) : j ∈ b.ones stop ↔ b.has j = true ∧ j < stop := by
  have whole : (stop + 63) % 2 ^ 32 = stop + 63 := Nat.mod_eq_of_lt small
  simp only [ones, mem_flatMap, mem_range, blockEnd, whole, mem_onesAt]
  constructor
  · rintro ⟨i, inside, set, rfl, bounded⟩
    refine ⟨set, ?_⟩
    by_cases last : j / 64 = stop / 64
    · have := bounded last
      omega
    · omega
  · rintro ⟨set, below⟩
    have inside := has_lt set
    exact ⟨j / 64, by omega, set, rfl, fun last => by omega⟩

theorem onesAt_nodup (b : Bitmap) (stop i : Nat) : (b.onesAt stop i).Nodup :=
  (nodup_range.filter _).map fun _ _ equal => Nat.add_left_cancel equal

theorem ones_nodup (b : Bitmap) (stop : Nat) : (b.ones stop).Nodup := by
  apply nodup_flatMap.mpr
  refine ⟨fun i _ => b.onesAt_nodup stop i, ?_⟩
  refine nodup_range.imp fun different => ?_
  intro j first second
  exact different (((b.mem_onesAt stop _ j).mp first).2.1.symm.trans ((b.mem_onesAt stop _ j).mp second).2.1)

/-- Bitmaps with the same bits in every block from the `i`-th on. -/
def SameFrom (i : Nat) (b c : Bitmap) : Prop :=
  ∀ j, i ≤ j / 64 → b.has j = c.has j

theorem SameFrom.onesAt {c : Bitmap} {block : Nat} (same : SameFrom i b c)
    (later : i ≤ block) : b.onesAt stop block = c.onesAt stop block := by
  have bits : ∀ k < 64,
      (b.bitBlock.getD block 0).getLsbD k = (c.bitBlock.getD block 0).getLsbD k := by
    intro k small
    have := same (block * 64 + k) (by omega)
    simpa [has, show (block * 64 + k) / 64 = block by omega,
      show (block * 64 + k) % 64 = k by omega] using this
  have words : b.bitBlock.getD block 0 = c.bitBlock.getD block 0 :=
    BitVec.eq_of_getLsbD_eq fun k small => bits k small
  simp only [Bitmap.onesAt, words]

end Bitmap

/-- Calls that change no block after the one they are about. -/
def StaysBehind {σ : Type} (read : σ → Bitmap) (visit : σ → Nat → Option σ) : Prop :=
  ∀ s j after, visit s j = some after → Bitmap.SameFrom (j / 64 + 1) (read after) (read s)

theorem StaysBehind.foldlM
    (behind : StaysBehind read visit) {js : List Nat} {s after : σ} (block : ∀ j ∈ js, j / 64 = i)
    (visited : js.foldlM visit s = some after) :
    Bitmap.SameFrom (i + 1) (read after) (read s) := by
  induction js generalizing s with
  | nil =>
    cases visited
    exact fun _ _ => rfl
  | cons j rest ih =>
    rw [foldlM_cons] at visited
    obtain ⟨next, first, later⟩ := Option.bind_eq_some_iff.mp visited
    have here := behind s j next first
    rw [block j mem_cons_self] at here
    intro k above
    rw [ih (forall_mem_cons.mp block).2 later k above]
    exact here k above

theorem forEach_eq
    (behind : StaysBehind read visit) (stop : Nat) (s : σ) :
    forEach read stop visit s = ((read s).ones stop).foldlM visit s := by
  have blocks : ∀ count first (b : Bitmap) (s : σ), Bitmap.SameFrom first (read s) b →
      (range' first count).foldlM
          (fun s i => ((read s).onesAt stop i).foldlM visit s) s =
        ((range' first count).flatMap (b.onesAt stop)).foldlM visit s := by
    intro count
    induction count with
    | zero => exact fun first b s same => rfl
    | succ count ih =>
      intro first b s same
      rw [range'_succ, foldlM_cons, flatMap_cons, foldlM_append, same.onesAt (Nat.le_refl first)]
      cases visited : (b.onesAt stop first).foldlM visit s with
      | none => rfl
      | some after =>
        have kept := behind.foldlM (fun j member => ((b.mem_onesAt stop first j).mp member).2.1) visited
        exact ih (first + 1) b after fun j above =>
          (kept j above).trans (same j (by omega))
  rw [forEach, Bitmap.ones, range_eq_range']
  exact blocks _ 0 (read s) s fun _ _ => rfl

end BVisor.Descriptors
