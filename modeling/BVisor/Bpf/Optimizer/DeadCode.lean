import BVisor.Bpf.Optimizer.RemovalPasses

/-! `removeDeadCode`. -/

namespace BVisor.Bpf

open List Option

variable {insns : List Instruction} {pc : Nat}

/-- The state of the search: everything marked or waiting is reachable, and what can follow a
marked instruction is marked or waiting. -/
structure Marking (insns : List Instruction) (cursors : List Nat) (reachable : List Bool) :
    Prop where
  length : reachable.length = insns.length
  marked : ∀ pc, reachable[pc]? = some true → Reachable insns pc
  waiting : ∀ pc ∈ cursors, Reachable insns pc
  entry : reachable[0]? = some true ∨ 0 ∈ cursors
  closed : ∀ pc next, reachable[pc]? = some true → Edge insns pc next →
    reachable[next]? = some true ∨ next ∈ cursors

variable {cursors : List Nat} {cursor : Nat}

theorem Marking.skip {reachable : List Bool}
    (marking : Marking insns (cursor :: cursors) reachable)
    (isMarked : reachable[cursor]? = some true) : Marking insns cursors reachable := by
  have waits : ∀ pc : Nat, reachable[pc]? = some true ∨ pc ∈ cursor :: cursors →
      reachable[pc]? = some true ∨ pc ∈ cursors := by
    rintro pc (isMarked | member)
    · exact .inl isMarked
    · rcases mem_cons.mp member with rfl | member
      · exact .inl isMarked
      · exact .inr member
  exact
    { length := marking.length
      marked := marking.marked
      waiting := (forall_mem_cons.mp marking.waiting).2
      entry := waits 0 marking.entry
      closed := fun pc next here edge => waits next (marking.closed pc next here edge) }

theorem Marking.mark {reachable : List Bool}
    {ins : Instruction} (marking : Marking insns (cursor :: cursors) reachable)
    (found : insns[cursor]? = some ins) :
    Marking insns (cursors ++ successors cursor ins) (reachable.set cursor true) := by
  have bound : cursor < reachable.length := marking.length ▸ (List.getElem?_eq_some_iff.mp found).1
  have reached := marking.waiting cursor mem_cons_self
  have own : (reachable.set cursor true)[cursor]? = some true := getElem?_set_self bound
  have others : ∀ pc : Nat, reachable[pc]? = some true →
      (reachable.set cursor true)[pc]? = some true := by
    intro pc isMarked
    by_cases same : cursor = pc
    · exact same ▸ own
    · rwa [getElem?_set_ne same]
  have waits : ∀ pc : Nat, reachable[pc]? = some true ∨ pc ∈ cursor :: cursors →
      (reachable.set cursor true)[pc]? = some true ∨ pc ∈ cursors ++ successors cursor ins := by
    rintro pc (isMarked | member)
    · exact .inl (others pc isMarked)
    · rcases mem_cons.mp member with rfl | member
      · exact .inl own
      · exact .inr (mem_append_left _ member)
  refine ⟨by rw [length_set, marking.length], ?_, ?_, waits 0 marking.entry, ?_⟩
  · intro pc isMarked
    by_cases same : cursor = pc
    · exact same ▸ reached
    · rw [getElem?_set_ne same] at isMarked
      exact marking.marked pc isMarked
  · intro pc member
    rcases mem_append.mp member with member | member
    · exact marking.waiting pc (mem_cons_of_mem _ member)
    · exact reached.tail ⟨ins, found, member⟩
  · intro pc next isMarked edge
    by_cases same : cursor = pc
    · subst same
      obtain ⟨other, foundOther, member⟩ := edge
      rw [found, some.injEq] at foundOther
      subst foundOther
      exact .inr (mem_append_right _ member)
    · rw [getElem?_set_ne same] at isMarked
      exact waits next (marking.closed pc next isMarked edge)

theorem successors_length (pc : Nat) (ins : Instruction) : (successors pc ins).length ≤ 2 := by
  simp only [successors, Instruction.jumpOffsets]
  split_ifs <;> simp

theorem markReachable_spec (wellFormed : WellFormed insns) (rounds : Nat)
    {reachable : List Bool} (marking : Marking insns cursors reachable)
    (enough : cursors.length + 2 * reachable.count false ≤ rounds) :
    ∃ final, markReachable insns rounds cursors reachable = some final ∧
      Marking insns [] final := by
  induction rounds generalizing cursors reachable with
  | zero =>
    cases cursors with
    | nil => exact ⟨reachable, rfl, marking⟩
    | cons cursor cursors => simp at enough
  | succ rounds ih =>
    cases cursors with
    | nil => exact ⟨reachable, rfl, marking⟩
    | cons cursor cursors =>
      have bound : cursor < insns.length := wellFormed.flows_lt wellFormed.nonempty
        (marking.waiting cursor mem_cons_self)
      have bound' : cursor < reachable.length := marking.length ▸ bound
      have found : insns[cursor]? = some insns[cursor] := getElem?_eq_getElem bound
      have seen : reachable[cursor]? = some reachable[cursor] := getElem?_eq_getElem bound'
      simp only [markReachable, seen, found, bind_eq_bind, bind_some]
      cases isMarked : reachable[cursor] with
      | true =>
        rw [isMarked] at seen
        simp only [length_cons] at enough
        exact ih (marking.skip seen) (by omega)
      | false =>
        have two := successors_length cursor insns[cursor]
        have positive : 0 < reachable.count false := count_pos_iff.mpr (isMarked ▸ getElem_mem bound')
        have fewer := count_set (a := true) (b := false) bound'
        simp only [isMarked, length_cons] at fewer enough
        refine ih (marking.mark found) ?_
        simp only [length_append]
        simp at fewer
        omega

theorem Marking.final {reachable : List Bool} (marking : Marking insns [] reachable) :
    reachable[pc]? = some true ↔ Reachable insns pc := by
  refine ⟨marking.marked pc, fun reached => ?_⟩
  induction reached with
  | refl => simpa using marking.entry
  | tail _ edge ih => simpa using marking.closed _ _ ih edge

section Removal

variable {removed : Nat} {live : Nat → Prop}

theorem Inside.reachable (inside : Inside insns live) (entry : live 0)
    (reached : Reachable insns pc) : live pc := by
  induction reached with
  | refl => exact entry
  | tail _ edge ih =>
    obtain ⟨ins, found, member⟩ := edge
    obtain ⟨other, foundOther, _, stays⟩ := inside _ ih
    rw [found, some.injEq] at foundOther
    exact stays _ (foundOther ▸ member)

theorem Inside.restrict (inside : Inside insns live) (entry : live 0) :
    Inside insns (Reachable insns) := by
  intro pc reached
  obtain ⟨ins, found, valid, _⟩ := inside pc (inside.reachable entry reached)
  exact ⟨ins, found, valid, fun next member => reached.tail ⟨ins, found, member⟩⟩

theorem reachable_removeAt (inside : Inside insns (Reachable insns))
    (dead : ¬ Reachable insns removed) (reached : Reachable insns pc) :
    Reachable (removeAt removed insns) (shift removed pc) := by
  induction reached with
  | refl => rw [shift_zero]; exact .refl
  | @tail middle next before edge ih =>
    obtain ⟨ins, found, member⟩ := edge
    have kept : middle ≠ removed := fun same => dead (same ▸ before)
    obtain ⟨other, foundOther, ⟨op, decoded, _⟩, _⟩ := inside middle before
    rw [found, some.injEq] at foundOther
    subst foundOther
    refine ih.tail ⟨moved removed middle ins, ?_, ?_⟩
    · rw [removeAt_getElem? kept, found, map_some]
    · rw [successors_moved decoded kept]
      exact mem_map_of_mem member

structure Pruning (insns : List Instruction) (total : Nat) (remaining : List Nat)
    (current : List Instruction) : Prop where
  inside : Inside current (Reachable current)
  count : current.length + total = insns.length + remaining.length
  dead : ∀ place ∈ remaining, place < current.length ∧ ¬ Reachable current place
  others : ∀ place < current.length, Reachable current place ∨ place ∈ remaining
  meaning : SameMeaning insns current

variable {current : List Instruction} {total : Nat}

theorem Pruning.step {lower : List Nat} {place : Nat}
    (lowest : ∀ earlier ∈ lower, earlier < place) (pruning : Pruning insns total (lower ++ [place]) current) :
    Pruning insns total lower (removeAt place current) := by
  obtain ⟨inside, count, dead, others, meaning⟩ := pruning
  obtain ⟨bound, unreachable⟩ := dead place (by simp)
  have entry : Reachable current 0 := .refl
  have entryKept : 0 ≠ place := fun same => unreachable (same ▸ entry)
  have insideAfter := inside.removeAt place fun reached => absurd reached unreachable
  have entryAfter : liveAfter (Reachable current) place 0 := ⟨0, entry, entryKept, shift_zero⟩
  have tree : codeTree (removeAt place current) 0 = (codeTree current 0).without place := by
    have shifted := codeTree_removeAt place inside (fun reached => absurd reached unreachable) entry
    rwa [shift_zero] at shifted
  refine ⟨insideAfter.restrict entryAfter, ?_, ?_, ?_, ?_⟩
  · rw [length_removeAt bound]
    simp only [length_append, length_singleton] at count
    omega
  · intro earlier member
    have before := lowest earlier member
    refine ⟨by rw [length_removeAt bound]; omega, fun reached => ?_⟩
    obtain ⟨original, originalReached, _, moves⟩ := insideAfter.reachable entryAfter reached
    obtain rfl : original = earlier := by
      rw [shift] at moves
      split at moves <;> omega
    exact (dead original (mem_append_left _ member)).2 originalReached
  · intro moved inRange
    rw [length_removeAt bound] at inRange
    have listed : ∀ original, original ≠ place → original < current.length →
        Reachable (removeAt place current) (shift place original) ∨ original ∈ lower := by
      intro original kept within
      rcases others original within with reached | member
      · exact .inl (reachable_removeAt inside unreachable reached)
      · rcases mem_append.mp member with member | same
        · exact .inr member
        · exact absurd (mem_singleton.mp same) kept
    by_cases before : moved < place
    · have same : shift place moved = moved := by rw [shift, if_neg (by omega)]
      simpa only [same] using listed moved (by omega) (by omega)
    have same : shift place (moved + 1) = moved := by rw [shift, if_pos (by omega)]; omega
    rcases listed (moved + 1) (by omega) (by omega) with reached | member
    · exact .inl (same ▸ reached)
    · have := lowest _ member
      omega
  · intro endian input
    have unmet : (codeTree current 0).Removable place := by
      intro ins info comes
      exact absurd (arrives_of_comes inside entry comes).1.reachable unreachable
    rw [tree, Tree.without, value_collect, meaning]
    · intro action other kept
      exact (Action.drop_eq_some.mp kept).2 ▸ rfl
    · intro action dropped
      rwa [Action.drop_eq_none.mp dropped]

theorem Pruning.wellFormed (pruning : Pruning insns total [] current) : WellFormed current := by
  have within : ∀ place, Reachable current place → place < current.length := by
    intro place reached
    obtain ⟨ins, found, _⟩ := pruning.inside place reached
    exact (List.getElem?_eq_some_iff.mp found).1
  refine ⟨within 0 .refl, fun place bound => ?_⟩
  have reached : Reachable current place := by simpa using pruning.others place bound
  obtain ⟨ins, found, valid, stays⟩ := pruning.inside place reached
  exact ⟨ins, found, valid, fun next member => within next (stays next member)⟩

end Removal

theorem removeDeadCode_sound (wellFormed : WellFormed insns) :
    ∃ after changed, removeDeadCode insns = some (after, changed) ∧
      (changed = false → after = insns ∧ ∀ pc < insns.length, Reachable insns pc) ∧
      (changed = true → Improves True insns after ∧ after.length < insns.length) := by
  have start : Marking insns [0] (replicate insns.length false) :=
    { length := length_replicate
      marked := fun pc isMarked => by simp [getElem?_replicate] at isMarked
      waiting := fun pc member => by
        rw [mem_singleton.mp member]
        exact .refl
      entry := .inr mem_cons_self
      closed := fun pc next isMarked => by simp [getElem?_replicate] at isMarked }
  obtain ⟨reachable, searched, marking⟩ := markReachable_spec
    wellFormed (2 * insns.length + 1) start (by simp; omega)
  have unmarked : ∀ pc, pc ∈ places insns (fun pc _ => reachable[pc]? == some false) ↔
      pc < insns.length ∧ ¬ Reachable insns pc := by
    intro pc
    rw [mem_places, ← marking.final]
    constructor
    · rintro ⟨ins, found, isMarked⟩
      simp only [beq_iff_eq] at isMarked
      exact ⟨(List.getElem?_eq_some_iff.mp found).1, by simp [isMarked]⟩
    · rintro ⟨bound, isMarked⟩
      refine ⟨insns[pc], getElem?_eq_getElem bound, ?_⟩
      rw [getElem?_eq_getElem (marking.length ▸ bound)] at isMarked ⊢
      simpa using isMarked
  rw [removeDeadCode, if_neg (by have := wellFormed.nonempty; omega)]
  simp only [searched, bind_eq_bind, bind_some]
  refine ⟨_, _, by rw [applyRemoval_eq], ?_, ?_⟩
  · intro unchanged
    have none : places insns (fun pc _ => reachable[pc]? == some false) = [] := by
      simpa using unchanged
    refine ⟨by simp [none], fun pc bound => ?_⟩
    by_contra dead
    have member := (unmarked pc).mpr ⟨bound, dead⟩
    rw [none] at member
    simp at member
  · intro changed
    have some : places insns (fun pc _ => reachable[pc]? == Option.some false) ≠ [] := by
      simpa using changed
    have nonempty := length_pos_iff.mpr some
    have pruning := foldr_removeAt
      (Pruning insns (places insns fun pc _ => reachable[pc]? == Option.some false).length)
      (fun lower place current lowest holds => holds.step lowest) places_sorted
      { inside := wellFormed.inside.restrict wellFormed.nonempty
        count := rfl
        dead := fun place member => (unmarked place).mp member
        others := fun place bound => by
          by_cases reached : Reachable insns place
          · exact .inl reached
          · exact .inr ((unmarked place).mpr ⟨bound, reached⟩)
        meaning := .of_tree rfl }
    have count := pruning.count
    simp only [length_nil] at count
    exact ⟨⟨pruning.wellFormed, fun _ => pruning.meaning, by omega⟩, by omega⟩

end BVisor.Bpf
