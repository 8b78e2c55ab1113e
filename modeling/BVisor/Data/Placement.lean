import Mathlib

/-! Lists that hold each element in one place at most, and a record of the place of each. -/

namespace BVisor.Data

open Function

variable {α β : Type} [DecidableEq α] [DecidableEq β]
variable {lists : β → List α} {place : α → Option β} {a : α} {b : β}

structure Placed (lists : β → List α) (place : α → Option β) : Prop where
  mem_iff : ∀ b a, a ∈ lists b ↔ place a = some b
  nodup : ∀ b, (lists b).Nodup

section

variable (placed : Placed lists place)
include placed

theorem Placed.put {list : List α} {target : Option β} (distinct : list.Nodup)
    (here : ∀ x, x ∈ list ↔ update place a target x = some b)
    (elsewhere : ∀ c, c ≠ b → (place a = some c ↔ target = some c)) :
    Placed (update lists b list) (update place a target) := by
  constructor
  · intro c x
    by_cases inside : c = b
    · subst c
      rw [update_self]
      exact here x
    rw [update_of_ne inside, placed.mem_iff]
    by_cases same : x = a
    · subst x
      rw [update_self]
      exact elsewhere c inside
    · rw [update_of_ne same]
  · intro c
    by_cases inside : c = b
    · subst c
      rwa [update_self]
    · rw [update_of_ne inside]
      exact placed.nodup c

theorem Placed.remove (found : place a = some b) :
    Placed (update lists b ((lists b).erase a)) (update place a none) := by
  apply placed.put ((placed.nodup b).erase a)
  · intro x
    by_cases same : x = a <;> simp [same, (placed.nodup b).mem_erase_iff, placed.mem_iff]
  · intro c other
    simp [found, other.symm]

theorem Placed.add (absent : place a = none) (b : β) :
    Placed (update lists b (lists b ++ [a])) (update place a (some b)) := by
  have fresh : a ∉ lists b := by simp [placed.mem_iff, absent]
  apply placed.put (List.concat_eq_append ▸ (List.nodup_concat _ _).mpr ⟨fresh, placed.nodup b⟩)
  · intro x
    by_cases same : x = a <;> simp [same, placed.mem_iff]
  · intro c other
    simp [absent, other.symm]

theorem Placed.move (found : place a = some b) (c : β) :
    let removed := update lists b ((lists b).erase a)
    Placed (update removed c (removed c ++ [a])) (update place a (some c)) := by
  have moved := (placed.remove found).add (a := a) (update_self a none place) c
  rwa [update_idem] at moved

end

end BVisor.Data
