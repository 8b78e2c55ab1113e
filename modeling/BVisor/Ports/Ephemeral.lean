import Mathlib

/-! The search for an ephemeral port: every port of the range once, from a random start. -/

namespace BVisor.Ports

open List

inductive Tested (Error : Type) where
  | good | bad
  | error (error : Error)
deriving DecidableEq

inductive Picked (Error : Type) where
  | port (port : Nat)
  | error (error : Error)
  | noPortAvailable
deriving DecidableEq

structure PortManager where
  firstEphemeral : Nat
  numEphemeral : Nat
deriving DecidableEq

def newPortManager : PortManager :=
  ⟨16000, 65535 - 16000 + 1⟩

namespace PortManager

def portRange (manager : PortManager) : Nat × Nat :=
  (manager.firstEphemeral, (manager.firstEphemeral + manager.numEphemeral + (2 ^ 16 - 1)) % 2 ^ 16)

/-- `none` is the error for a range that ends before it starts. -/
def setPortRange (_ : PortManager) (start stop : Nat) : Option PortManager :=
  if start > stop then none else some ⟨start, (stop - start + 1) % 2 ^ 16⟩

end PortManager

variable {Error : Type}

/-- The caller's test may depend on the tests before it, so it is given their log. -/
abbrev PortTester (Error : Type) :=
  List (Nat × Tested Error) → Nat → Tested Error

def candidate (offset first count i : Nat) : Nat :=
  (first + (offset + i) % 2 ^ 32 % count) % 2 ^ 16

/-- The loop over `i`; it returns the log of the tests with the result. -/
def searchFrom (testPort : PortTester Error) (offset first count : Nat) :
    List Nat → List (Nat × Tested Error) → List (Nat × Tested Error) × Picked Error
  | [], log => (log, .noPortAvailable)
  | i :: rest, log =>
    let port := candidate offset first count i
    match testPort log port with
    | .error error => (log ++ [(port, .error error)], .error error)
    | .good => (log ++ [(port, .good)], .port port)
    | .bad => searchFrom testPort offset first count rest (log ++ [(port, .bad)])

def pickEphemeralPort (offset first count : Nat) (testPort : PortTester Error) :
    List (Nat × Tested Error) × Picked Error :=
  searchFrom testPort offset first count (List.range count) []

def PortManager.pickEphemeralPort (manager : PortManager) (random : Nat)
    (testPort : PortTester Error) : List (Nat × Tested Error) × Picked Error :=
  Ports.pickEphemeralPort random manager.firstEphemeral manager.numEphemeral testPort

section Search

variable (testPort : PortTester Error) (offset first count : Nat)

theorem searchFrom_tested (indexes : List Nat) (log : List (Nat × Tested Error)) :
    ((searchFrom testPort offset first count indexes log).1.map Prod.fst) <+:
      log.map Prod.fst ++ indexes.map (candidate offset first count) := by
  induction indexes generalizing log with
  | nil => simp [searchFrom]
  | cons i rest ih =>
    unfold searchFrom
    cases tested : testPort log (candidate offset first count i) with
    | good => simp [tested]
    | error error => simp [tested]
    | bad =>
      have later := ih (log ++ [(candidate offset first count i, .bad)])
      simpa [tested] using later

theorem searchFrom_exhausted (indexes : List Nat) (log : List (Nat × Tested Error))
    (exhausted : (searchFrom testPort offset first count indexes log).2 = .noPortAvailable) :
    (searchFrom testPort offset first count indexes log).1 =
      log ++ indexes.map fun i => (candidate offset first count i, .bad) := by
  induction indexes generalizing log with
  | nil => simp [searchFrom]
  | cons i rest ih =>
    unfold searchFrom at exhausted ⊢
    cases tested : testPort log (candidate offset first count i) with
    | good => simp [tested] at exhausted
    | error error => simp [tested] at exhausted
    | bad =>
      simp only [tested] at exhausted ⊢
      rw [ih _ exhausted]
      simp

theorem pickEphemeralPort_ports :
    let log := (pickEphemeralPort offset first count testPort).1
    log.length ≤ count ∧
      log.map Prod.fst = (List.range log.length).map (candidate offset first count) := by
  have tested := searchFrom_tested testPort offset first count (List.range count) []
  rw [map_nil, nil_append] at tested
  have short := tested.length_le
  have cut := prefix_iff_eq_take.mp tested
  rw [length_map] at short cut
  rw [length_map, length_range] at short
  refine ⟨short, ?_⟩
  rw [← map_take, take_range, Nat.min_eq_left short] at cut
  exact cut

end Search

section Candidates

variable {offset first count : Nat} (fits : first + count ≤ 2 ^ 16)
include fits

/-- Before the sum of offset and index wraps, and after it. -/
theorem candidate_eq (inside : 0 < count) {i : Nat} (small : offset + i < 2 ^ 33) :
    candidate offset first count i =
      first + (if offset + i < 2 ^ 32 then offset + i else offset + i - 2 ^ 32) % count := by
  have below (k : Nat) : (first + k % count) % 2 ^ 16 = first + k % count := by
    have := Nat.mod_lt k inside
    exact Nat.mod_eq_of_lt (by omega)
  unfold candidate
  rw [below]
  split
  · rw [Nat.mod_eq_of_lt (by omega : offset + i < 2 ^ 32)]
  · rw [show (offset + i) % 2 ^ 32 = offset + i - 2 ^ 32 by omega]

theorem candidate_in_range (inside : 0 < count) (i : Nat) :
    first ≤ candidate offset first count i ∧ candidate offset first count i < first + count := by
  have below := Nat.mod_lt ((offset + i) % 2 ^ 32) inside
  unfold candidate
  rw [Nat.mod_eq_of_lt (by omega)]
  omega

variable (start : offset < 2 ^ 32)
include start

/-- Two indexes with one candidate lie on the two sides of the wrap, as far apart as `2 ^ 32` is
from a multiple of the count. -/
theorem candidate_collides_iff {i j : Nat} (before : i < j) (inside : j < count) :
    candidate offset first count i = candidate offset first count j ↔
      offset + i < 2 ^ 32 ∧ 2 ^ 32 ≤ offset + j ∧ j = i + 2 ^ 32 % count := by
  have countPositive : 0 < count := by omega
  have remainder := Nat.mod_lt (2 ^ 32) countPositive
  rw [candidate_eq fits countPositive (by omega), candidate_eq fits countPositive (by omega),
    Nat.add_left_cancel_iff]
  -- Indexes on one side of the wrap differ by less than the count.
  have apart {k l : Nat} (less : k < l) (near : l < k + count) : k % count ≠ l % count := by
    intro same
    have divides := (Nat.modEq_iff_dvd' (Nat.le_of_lt less)).mp same
    have := Nat.le_of_dvd (by omega) divides
    omega
  split
  · next low =>
    split
    · exact iff_of_false (apart (by omega) (by omega)) (by omega)
    next high =>
    constructor
    · intro same
      obtain ⟨times, product⟩ := (Nat.modEq_iff_dvd' (by omega)).mp same.symm
      have split : 2 ^ 32 = count * times + (j - i) := by omega
      rw [split, Nat.mul_add_mod, Nat.mod_eq_of_lt (by omega)]
      omega
    · rintro ⟨-, -, distance⟩
      have divided := Nat.div_add_mod (2 ^ 32) count
      rw [show offset + i = offset + j - 2 ^ 32 + count * (2 ^ 32 / count) by omega,
        Nat.add_mul_mod_self_left]
  · next high =>
    rw [if_neg (by omega)]
    exact iff_of_false (apart (by omega) (by omega)) (by omega)

/-- The first `tests` candidates are distinct unless the wrap is among them and makes the ports
after it coincide with ports before it. -/
theorem candidates_nodup_iff {tests : Nat} (inside : tests ≤ count) :
    ((List.range tests).map (candidate offset first count)).Nodup ↔
      count ∣ 2 ^ 32 ∨ tests ≤ max (2 ^ 32 - offset) (2 ^ 32 % count) := by
  constructor
  · intro distinct
    by_contra neither
    obtain ⟨notDivides, more⟩ := not_or.mp neither
    have remainder := Nat.pos_of_ne_zero fun zero => notDivides (Nat.dvd_of_mod_eq_zero zero)
    generalize last : max (2 ^ 32 - offset) (2 ^ 32 % count) = j at more
    have same := (candidate_collides_iff (i := j - 2 ^ 32 % count) (j := j) fits start
      (by omega) (by omega)).mpr (by omega)
    have := inj_on_of_nodup_map distinct (mem_range.mpr (by omega)) (mem_range.mpr (by omega)) same
    omega
  · intro condition
    have apart {i j : Nat} (before : i < j) (tested : j < tests) :
        candidate offset first count i ≠ candidate offset first count j := by
      intro same
      obtain ⟨low, high, distance⟩ := (candidate_collides_iff fits start before (by omega)).mp same
      rcases condition with divides | few
      · rw [Nat.mod_eq_zero_of_dvd divides] at distance
        omega
      · omega
    refine Nodup.map_on ?_ nodup_range
    intro i iTested j jTested same
    rw [mem_range] at iTested jTested
    rcases Nat.lt_trichotomy i j with before | equal | after
    · exact absurd same (apart before jTested)
    · exact equal
    · exact absurd same.symm (apart after iTested)

end Candidates

theorem portRange_setPortRange {manager configured : PortManager} {start stop : Nat}
    (fits : stop < 2 ^ 16) (set : manager.setPortRange start stop = some configured) :
    configured.portRange = (start, stop) := by
  unfold PortManager.setPortRange at set
  split at set
  · cases set
  · cases set
    simp only [PortManager.portRange, Prod.mk.injEq, true_and]
    omega

/-- A search that runs out of candidates has rejected every port of the range if they are
distinct: there are as many candidates as ports. -/
theorem exhausted_rejects {offset first count : Nat} (fits : first + count ≤ 2 ^ 16)
    (testPort : PortTester Error)
    (distinct : ((pickEphemeralPort offset first count testPort).1.map Prod.fst).Nodup)
    (exhausted : (pickEphemeralPort offset first count testPort).2 = .noPortAvailable)
    {port : Nat} (above : first ≤ port) (below : port < first + count) :
    (port, .bad) ∈ (pickEphemeralPort offset first count testPort).1 := by
  have log := searchFrom_exhausted testPort offset first count (List.range count) [] exhausted
  rw [nil_append] at log
  unfold pickEphemeralPort at distinct ⊢
  rw [log, map_map] at distinct
  have inRange : (List.range count).map (candidate offset first count) ⊆
      List.range' first count := by
    intro port member
    obtain ⟨i, inside, rfl⟩ := mem_map.mp member
    rw [mem_range] at inside
    rw [mem_range'_1]
    exact candidate_in_range fits (by omega) i
  have perm := (subperm_of_subset distinct inRange).perm_of_length_le (by simp)
  obtain ⟨i, inside, rfl⟩ := mem_map.mp (perm.mem_iff.mpr (mem_range'_1.mpr ⟨above, below⟩))
  rw [log]
  exact mem_map.mpr ⟨i, inside, rfl⟩

/-- The search tests only ports of the range, each at most once, and gives up only when all of
them have been rejected, exactly when the count of the ports is representable and, unless that
count divides `2 ^ 32`, the search stops before a port from after the wrap of the index coincides
with one from before it. -/
theorem ephemeral_search_exhaustive (manager : PortManager) (start stop random : Nat)
    (testPort : PortTester Error) (ordered : start ≤ stop) (fits : stop < 2 ^ 16)
    (drawn : random < 2 ^ 32) :
    ∃ configured, manager.setPortRange start stop = some configured ∧
      configured.portRange = (start, stop) ∧
      let search := configured.pickEphemeralPort random testPort
      ((∀ port ∈ search.1.map Prod.fst, start ≤ port ∧ port ≤ stop) ∧
        (search.1.map Prod.fst).Nodup ∧
        (search.2 = .noPortAvailable →
          ∀ port, start ≤ port → port ≤ stop → (port, .bad) ∈ search.1) ↔
      ¬ (start = 0 ∧ stop = 2 ^ 16 - 1) ∧
        (stop - start + 1 ∣ 2 ^ 32 ∨
          search.1.length ≤ max (2 ^ 32 - random) (2 ^ 32 % (stop - start + 1)))) := by
  have set : manager.setPortRange start stop = some ⟨start, (stop - start + 1) % 2 ^ 16⟩ := by
    simp [PortManager.setPortRange, Nat.not_lt.mpr ordered]
  refine ⟨_, set, portRange_setPortRange fits set, ?_⟩
  by_cases all : start = 0 ∧ stop = 2 ^ 16 - 1
  · obtain ⟨rfl, rfl⟩ := all
    refine iff_of_false (fun ⟨_, _, rejected⟩ => ?_) fun ⟨notAll, _⟩ => notAll ⟨rfl, rfl⟩
    exact absurd (rejected rfl 0 (Nat.le_refl 0) (Nat.zero_le _)) not_mem_nil
  have count : (stop - start + 1) % 2 ^ 16 = stop - start + 1 := Nat.mod_eq_of_lt (by omega)
  have whole : start + (stop - start + 1) ≤ 2 ^ 16 := by omega
  simp only [PortManager.pickEphemeralPort, count]
  obtain ⟨short, ports⟩ := pickEphemeralPort_ports testPort random start (stop - start + 1)
  have distinct := candidates_nodup_iff whole drawn short
  rw [← ports] at distinct
  constructor
  · rintro ⟨-, once, -⟩
    exact ⟨all, distinct.mp once⟩
  · rintro ⟨-, condition⟩
    have once := distinct.mpr condition
    refine ⟨?_, once, ?_⟩
    · intro port member
      rw [ports] at member
      obtain ⟨i, -, rfl⟩ := mem_map.mp member
      have := @candidate_in_range random start (stop - start + 1) whole (by omega) i
      omega
    · intro exhausted port above below
      exact exhausted_rejects whole testPort once exhausted above (by omega)

/-- From the last offset the index wraps at once; of six ports the fourth test, of port 9, is
still the first of its port. A search that is refused everywhere tests all three ports. -/
theorem wrapped_search_distinct :
    (∃ configured, newPortManager.setPortRange 7 12 = some configured ∧
      let search := configured.pickEphemeralPort (2 ^ 32 - 1)
        fun log _ => if log.length < 3 then .bad else (.good : Tested Unit)
      search = ([(10, .bad), (7, .bad), (8, .bad), (9, .good)], .port 9) ∧
        (search.1.map Prod.fst).Nodup) ∧
    ∃ configured, newPortManager.setPortRange 7 9 = some configured ∧
      configured.portRange = (7, 9) ∧
      ∀ port, 7 ≤ port → port ≤ 9 →
        (port, .bad) ∈ (configured.pickEphemeralPort 4 fun _ _ => (.bad : Tested Unit)).1 := by
  constructor
  · obtain ⟨configured, set, -, holdsIff⟩ := ephemeral_search_exhaustive newPortManager 7 12 (2 ^ 32 - 1)
      (fun log _ => if log.length < 3 then .bad else (.good : Tested Unit))
      (by decide) (by decide) (by decide)
    refine ⟨configured, set, ?_⟩
    cases set
    exact ⟨by decide +kernel, (holdsIff.mpr (by decide +kernel)).2.1⟩
  · obtain ⟨configured, set, range, holdsIff⟩ := ephemeral_search_exhaustive newPortManager 7 9 4
      (fun _ _ => (.bad : Tested Unit)) (by decide) (by decide) (by decide)
    refine ⟨configured, set, range, ?_⟩
    cases set
    exact (holdsIff.mpr (by decide +kernel)).2.2 (by decide +kernel)

/-- The count of all ports is stored as 0, and no port is tested at all. An offset at the end of
the 32-bit integers wraps within the search: port 0 is tested twice and port 2 never. -/
theorem ports_missed :
    ((newPortManager.setPortRange 0 65535).map fun manager =>
        manager.pickEphemeralPort 0 fun _ _ => (.good : Tested Unit)) =
      some ([], .noPortAvailable) ∧
    ((newPortManager.setPortRange 0 2).map fun manager =>
        manager.pickEphemeralPort (2 ^ 32 - 1) fun _ _ => (.bad : Tested Unit)) =
      some ([(0, .bad), (0, .bad), (1, .bad)], .noPortAvailable) := by
  decide +kernel

end BVisor.Ports
