import Mathlib

/-! Lists of adjacent intervals of natural numbers. -/

namespace BVisor.Data

open List

universe u v

variable {α : Type u} {β : Type v} {lo hi : α → Nat} {start stop : Nat} {tiles : List α}
  {tile other : α}

/-- The intervals `[lo tile, hi tile]` follow each other and cover `[start, stop)`. -/
def Tiles (lo hi : α → Nat) : Nat → List α → Nat → Prop
  | start, [], stop => start = stop
  | start, tile :: rest, stop =>
    lo tile = start ∧ start ≤ hi tile ∧ Tiles lo hi (hi tile + 1) rest stop

theorem Tiles.le (tiled : Tiles lo hi start tiles stop) : start ≤ stop := by
  induction tiles generalizing start with
  | nil => exact Nat.le_of_eq tiled
  | cons tile rest ih =>
    obtain ⟨_, proper, after⟩ := tiled
    have := ih after
    omega

theorem tiles_append_iff {first second : List α} :
    Tiles lo hi start (first ++ second) stop ↔
      ∃ middle, Tiles lo hi start first middle ∧ Tiles lo hi middle second stop := by
  induction first generalizing start with
  | nil =>
    constructor
    · exact fun tiled => ⟨start, rfl, tiled⟩
    · rintro ⟨middle, rfl, tiled⟩
      exact tiled
  | cons tile rest ih =>
    simp only [cons_append, Tiles, ih]
    constructor
    · rintro ⟨begins, proper, middle, before, after⟩
      exact ⟨middle, ⟨begins, proper, before⟩, after⟩
    · rintro ⟨middle, ⟨begins, proper, before⟩, after⟩
      exact ⟨begins, proper, middle, before, after⟩

section

variable (tiled : Tiles lo hi start tiles stop) {point : Nat}
include tiled

theorem Tiles.bounds (member : tile ∈ tiles) : start ≤ lo tile ∧ lo tile ≤ hi tile ∧ hi tile < stop := by
  induction tiles generalizing start with
  | nil => cases member
  | cons head rest ih =>
    obtain ⟨begins, proper, after⟩ := tiled
    have past := after.le
    rcases mem_cons.mp member with rfl | inner
    · omega
    · have := ih after inner
      omega

theorem Tiles.covers (low : start ≤ point)
    (high : point < stop) : ∃ tile ∈ tiles, lo tile ≤ point ∧ point ≤ hi tile := by
  induction tiles generalizing start with
  | nil =>
    cases tiled
    omega
  | cons head rest ih =>
    obtain ⟨begins, _, after⟩ := tiled
    by_cases within : point ≤ hi head
    · exact ⟨head, mem_cons_self, by omega, within⟩
    · obtain ⟨tile, member, found⟩ := ih after (by omega)
      exact ⟨tile, mem_cons_of_mem head member, found⟩

theorem Tiles.pairwise : tiles.Pairwise fun first second => hi first < lo second := by
  induction tiles generalizing start with
  | nil => exact .nil
  | cons head rest ih =>
    obtain ⟨_, _, after⟩ := tiled
    refine .cons (fun tile member => ?_) (ih after)
    have := (after.bounds member).1
    omega

theorem Tiles.unique (member : tile ∈ tiles)
    (member' : other ∈ tiles) (within : lo tile ≤ point ∧ point ≤ hi tile)
    (within' : lo other ≤ point ∧ point ≤ hi other) : tile = other := by
  induction tiles generalizing start with
  | nil => cases member
  | cons head rest ih =>
    obtain ⟨_, _, after⟩ := tiled
    rcases mem_cons.mp member with rfl | inner
    · rcases mem_cons.mp member' with rfl | inner'
      · rfl
      · have := (after.bounds inner').1
        omega
    · rcases mem_cons.mp member' with rfl | inner'
      · have := (after.bounds inner).1
        omega
      · exact ih after inner inner'

end

theorem tiles_map {relabel : β → α} {labels : List β} :
    Tiles lo hi start (labels.map relabel) stop ↔
      Tiles (fun label => lo (relabel label)) (fun label => hi (relabel label)) start labels
        stop := by
  induction labels generalizing start with
  | nil => rfl
  | cons label rest ih => simp only [map_cons, Tiles, ih]

theorem Tiles.dvd_lo {unit : Nat} (tiled : Tiles lo hi start tiles stop) (aligned : unit ∣ start)
    (sizes : ∀ tile ∈ tiles, hi tile + 1 ≠ stop → unit ∣ hi tile + 1 - lo tile)
    (member : tile ∈ tiles) : unit ∣ lo tile := by
  induction tiles generalizing start with
  | nil => cases member
  | cons head rest ih =>
    obtain ⟨begins, proper, after⟩ := tiled
    rcases mem_cons.mp member with rfl | inner
    · exact begins ▸ aligned
    have bounds := after.bounds inner
    have size := sizes head mem_cons_self (by omega)
    have next : unit ∣ hi head + 1 := by
      have sum : hi head + 1 = hi head + 1 - lo head + start := by omega
      rw [sum]
      exact Nat.dvd_add size aligned
    exact ih after next (forall_mem_cons.mp sizes).2 inner

theorem Tiles.flatMap_slices {content : List β} {data : α → List β} (tiled : Tiles lo hi start tiles stop)
    (slices : ∀ tile ∈ tiles, data tile = (content.take (hi tile + 1)).drop (lo tile)) :
    tiles.flatMap data = (content.take stop).drop start := by
  induction tiles generalizing start with
  | nil =>
    cases tiled
    rw [flatMap_nil, drop_take, Nat.sub_self, take_zero]
  | cons head rest ih =>
    obtain ⟨begins, proper, after⟩ := tiled
    have past := after.le
    rw [flatMap_cons, slices head mem_cons_self,
      ih after (forall_mem_cons.mp slices).2, begins]
    simp only [drop_take]
    have size : stop - start = hi head + 1 - start + (stop - (hi head + 1)) := by omega
    rw [size, take_add, drop_drop]
    congr 3
    omega

end BVisor.Data
