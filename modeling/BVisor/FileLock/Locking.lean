import BVisor.FileLock.Holders

/-! The loop that takes a lock, against what it should do at each offset.

The loop goes from segment to segment: it locks the segment at the cursor, fills the gap after it
and steps to the next segment.  When the filled gap merges with the segment behind it, the step
goes past that segment, and the gap behind that one is never filled.
-/

namespace BVisor.FileLock.LockSet

open List hiding Cursor

open Option

open Data (Range Segment SegmentFunctions Cursor Fits lookup Lawful)

variable {Owner : Type} [DecidableEq Owner]

/-- A segment inside the range that is held as requested and by nobody else, between two offsets
of the range that nobody holds. -/
structure Island (set : LockSet Owner) (uid : Owner) (type : LockType) (range : Range)
    (segment : Segment (Lock Owner)) : Prop where
  member : segment ∈ set
  after : range.start < segment.start
  before : segment.stop < range.stop
  own : segment.value.holders = Holders.free.grant uid type
  freeBefore : set.held (segment.start - 1) = none
  freeAfter : set.held segment.stop = none

/-- The range is locked up to a position.  Where an offset was missed there is an island, and
every island that is not pending has made the loop miss an offset. -/
structure Progress (base : LockSet Owner) (uid : Owner) (type : LockType) (range : Range)
    (cursor : Cursor (Lock Owner)) (position : Nat) (pending : List (Segment (Lock Owner))) :
    Prop where
  fitsBefore : Fits Lock.Sound 0 cursor.before.reverse position
  fitsRest : Fits Lock.Sound position cursor.rest (2 ^ 64 - 1)
  remains : ∃ done, base = done ++ cursor.rest
  started : range.start ≤ position
  unchanged : ∀ key, ¬ (range.Contains key ∧ key < position) → held cursor.contents key = base.held key
  settled : ∀ key, range.Contains key → key < position →
    held cursor.contents key = some ((base.holdersAt key).grant uid type) ∨
      held cursor.contents key = none ∧ base.held key = none ∧
        ∃ segment, Island base uid type range segment
  skipped : ∀ segment, Island base uid type range segment → segment ∉ pending →
    ∃ key, range.Contains key ∧ key < position ∧ held cursor.contents key = none

variable {base set : LockSet Owner} {uid : Owner} {info : OwnerInfo} {type : LockType}
  {range : Range} {cursor : Cursor (Lock Owner)} {position key : Nat}
  {segment : Segment (Lock Owner)} {before rest pending : List (Segment (Lock Owner))}
  {next : Segment (Lock Owner)}

open Lock

theorem withPrevious_holders (sound : segment.value.Sound)
    (fits : Fits Lock.Sound 0 before.reverse segment.start) :
    (Cursor.withPrevious lockSetFunctions segment before).2.value.holders =
      segment.value.holders := by
  cases before with
  | nil => rfl
  | cons previous before =>
    rw [reverse_cons] at fits
    simp only [Cursor.withPrevious]
    split
    · split
      · next value merged =>
        have same := merge_some merged
        rw [same] at merged ⊢
        exact (merge_some_iff fits.around.2.2.1 sound _ _).mp merged
      · rfl
    · rfl

section

variable (nonempty : segment.start < segment.stop) (sound : segment.value.Sound)
  (fitsBefore : Fits Lock.Sound 0 before.reverse segment.start)
include nonempty sound fitsBefore

theorem place_swallows (nextSound : next.value.Sound) (touches : next.start = segment.stop)
    (same : next.value.holders = segment.value.holders) :
    ∃ earlier joined, (⟨before, next :: rest⟩ : Cursor _).place lockSetFunctions segment =
      ⟨earlier, joined :: rest⟩ ∧ joined.stop = next.stop := by
  obtain ⟨_, _, sameStop, joinedSound, _⟩ :=
    Cursor.withPrevious_spec lockSetFunctions_lawful fitsBefore nonempty sound
  have merged := (merge_some_iff joinedSound nextSound
    (Cursor.withPrevious lockSetFunctions segment before).2.toRange next.toRange).mpr
    ((withPrevious_holders sound fitsBefore).trans same.symm)
  have joins := touches.trans sameStop.symm
  simp only [Cursor.place, Cursor.withNext, if_pos joins, merged]
  exact ⟨_, _, rfl, rfl⟩

theorem place_stays (fitsRest : Fits Lock.Sound segment.stop rest (2 ^ 64 - 1))
    (apart : ∀ next tail, rest = next :: tail → next.start = segment.stop →
      next.value.holders ≠ segment.value.holders) :
    ∃ earlier joined, (⟨before, rest⟩ : Cursor _).place lockSetFunctions segment =
      ⟨earlier, joined :: rest⟩ ∧ joined.stop = segment.stop := by
  obtain ⟨_, _, sameStop, joinedSound, _⟩ :=
    Cursor.withPrevious_spec lockSetFunctions_lawful fitsBefore nonempty sound
  refine ⟨(Cursor.withPrevious lockSetFunctions segment before).1,
    (Cursor.withPrevious lockSetFunctions segment before).2, ?_, sameStop⟩
  cases rest with
  | nil => rfl
  | cons next tail =>
    simp only [Cursor.place, Cursor.withNext]
    split
    · next joins =>
      split
      · next value merged =>
        have same := merge_some merged
        rw [same] at merged
        have holders := (merge_some_iff joinedSound fitsRest.2.2.1 _ _).mp merged
        rw [withPrevious_holders sound fitsBefore] at holders
        exact absurd holders.symm (apart next tail rfl (joins.trans sameStop))
      · rfl
    · rfl

end

theorem Progress.held_rest (progress : Progress base uid type range cursor position pending)
    (member : segment ∈ cursor.rest) (inside : segment.Contains key) :
    base.held key = some segment.value.holders := by
  have bounds := progress.fitsRest.mem member
  have after := inside.1
  rw [← progress.unchanged key (by omega)]
  have fits : Valid cursor.contents := Data.fits_append.mpr ⟨position, progress.fitsBefore, progress.fitsRest⟩
  exact fits.lookup_mem (mem_append_right _ member) inside

section Fill

variable {stop : Nat}

theorem held_gap (fitsBefore : Fits Lock.Sound 0 before.reverse position)
    (fitsRest : Fits Lock.Sound stop rest (2 ^ 64 - 1)) (after : position ≤ key)
    (early : key < stop) : held (before.reverse ++ rest) key = none := by
  rw [held, Data.lookup_append, fitsBefore.lookup_outside (.inr after),
    fitsRest.lookup_outside (.inl early)]
  rfl

theorem Progress.place {earlier later : List (Segment (Lock Owner))} {joined : Segment (Lock Owner)}
    (progress : Progress base uid type range ⟨before, rest⟩ position rest) (nonempty : position < stop)
    (inside : stop ≤ range.stop) (fitsRest : Fits Lock.Sound stop rest (2 ^ 64 - 1))
    (placed : (⟨before, rest⟩ : Cursor _).place lockSetFunctions
      ⟨⟨position, stop⟩, makeLock uid info type⟩ = ⟨earlier, joined :: later⟩) :
    Fits Lock.Sound 0 (joined :: earlier).reverse joined.stop ∧
      (∀ key, ¬ (position ≤ key ∧ key < stop) →
        held (⟨joined :: earlier, later⟩ : Cursor _).contents key = held (before.reverse ++ rest) key) ∧
      (∀ key, position ≤ key → key < stop → base.held key = none ∧
        held (⟨joined :: earlier, later⟩ : Cursor _).contents key =
          some ((base.holdersAt key).grant uid type)) ∧
      ∀ key, ¬ (range.Contains key ∧ key < stop) →
        held (⟨joined :: earlier, later⟩ : Cursor _).contents key = base.held key := by
  have sound : (makeLock uid info type).Sound := makeLock_sound
  obtain ⟨valid, looks⟩ := @Cursor.place_spec _ _ _ _ _ ⟨before, rest⟩
    ⟨⟨position, stop⟩, makeLock uid info type⟩ _ _ lockSetFunctions_lawful
    progress.fitsBefore nonempty sound fitsRest
  have contents := @Cursor.advance_contents _ ⟨earlier, joined :: later⟩
  simp only [Cursor.advance] at contents
  rw [placed] at valid looks
  rw [contents]
  have others : ∀ key, ¬ (position ≤ key ∧ key < stop) →
      held (⟨earlier, joined :: later⟩ : Cursor _).contents key = held (before.reverse ++ rest) key :=
    fun key outside => (looks key).trans
      (@Data.lookup_around _ _ _ _ ⟨⟨position, stop⟩, makeLock uid info type⟩ _ _ outside)
  refine ⟨?_, others, fun key after early => ?_, fun key outside => ?_⟩
  · obtain ⟨fitsEarlier, joinedNonempty, joinedSound, _⟩ := Fits.around valid
    rw [reverse_cons]
    exact Data.fits_around fitsEarlier joinedNonempty joinedSound (Nat.le_refl joined.stop)
  · have unheld : base.held key = none := by
      rw [← progress.unchanged key (by omega)]
      exact held_gap progress.fitsBefore fitsRest after early
    refine ⟨unheld, ?_⟩
    rw [held, looks, (Data.fits_around progress.fitsBefore nonempty sound fitsRest).lookup_at ⟨after, early⟩,
      makeLock_holders, holdersAt_none unheld]
  · have notIn : ¬ (position ≤ key ∧ key < stop) := by
      intro both
      exact outside ⟨⟨Nat.le_trans progress.started both.1, by omega⟩, both.2⟩
    rw [others key notIn]
    exact progress.unchanged key fun both => outside ⟨both.1, by omega⟩

/-- A gap is filled and the next segment is not merged with it: the cursor reaches that one. -/
theorem Progress.fill (progress : Progress base uid type range ⟨before, rest⟩ position rest)
    (info : OwnerInfo) (nonempty : position < stop) (inside : stop ≤ range.stop)
    (fitsRest : Fits Lock.Sound stop rest (2 ^ 64 - 1))
    (apart : ∀ next tail, rest = next :: tail → next.start = stop →
      next.value.holders ≠ Holders.free.grant uid type)
    (reached : ∀ next tail, rest = next :: tail → next.start < range.stop → next.start = stop) :
    ∃ earlier, ((⟨before, rest⟩ : Cursor _).place lockSetFunctions
        ⟨⟨position, stop⟩, makeLock uid info type⟩).advance = ⟨earlier, rest⟩ ∧
      Progress base uid type range ⟨earlier, rest⟩ stop rest.tail := by
  obtain ⟨earlier, joined, placed, sameStop⟩ := @place_stays _ _ ⟨⟨position, stop⟩,
    makeLock uid info type⟩ _ _ nonempty makeLock_sound progress.fitsBefore fitsRest
    (by simpa only [makeLock_holders] using apart)
  obtain ⟨fitsBefore, old, filled, unchanged⟩ := progress.place nonempty inside fitsRest placed
  rw [placed]
  refine ⟨joined :: earlier, rfl, fitsBefore.widen (Nat.le_refl 0) (Nat.le_of_eq sameStop), fitsRest,
    progress.remains, Nat.le_trans progress.started (Nat.le_of_lt nonempty), unchanged, ?_, ?_⟩
  · intro key contained early
    by_cases after : position ≤ key
    · exact .inl (filled key after early).2
    · rw [old key (by omega)]
      exact progress.settled key contained (by omega)
  · intro island isIsland notPending
    by_cases inRest : island ∈ rest
    · -- the next segment: it touches the filled gap and would have been merged with it
      cases rest with
      | nil => cases inRest
      | cons next tail =>
        cases inRest with
        | head =>
          have bounds := (fitsRest.mem mem_cons_self)
          have touches := reached _ tail rfl (by have := isIsland.before; omega)
          exact absurd isIsland.own (apart _ tail rfl touches)
        | tail _ inTail => exact absurd inTail notPending
    · obtain ⟨key, contained, early, missed⟩ := progress.skipped island isIsland inRest
      refine ⟨key, contained, by omega, ?_⟩
      rw [old key (by omega)]
      exact missed

def nextStart (rest : List (Segment (Lock Owner))) : Nat :=
  match rest with
  | [] => 2 ^ 64 - 1
  | next :: _ => next.start

omit [DecidableEq Owner] in
theorem fits_nextStart {lo : Nat} (fits : Fits Lock.Sound lo rest (2 ^ 64 - 1)) :
    lo ≤ nextStart rest ∧ Fits Lock.Sound (nextStart rest) rest (2 ^ 64 - 1) := by
  cases rest with
  | nil => exact ⟨fits.le, Nat.le_refl _⟩
  | cons next tail => exact ⟨fits.1, Nat.le_refl _, fits.2⟩

/-- A filled gap is merged with the next segment: the cursor goes past that segment, and the
gap behind it stays. -/
theorem Progress.swallow
    (progress : Progress base uid type range ⟨before, next :: rest⟩ position (next :: rest))
    (info : OwnerInfo) (nonempty : position < next.start) (inside : next.start ≤ range.stop)
    (bounded : range.stop ≤ 2 ^ 64 - 1) (own : next.value.holders = Holders.free.grant uid type) :
    ∃ earlier, ((⟨before, next :: rest⟩ : Cursor _).place lockSetFunctions
        ⟨⟨position, next.start⟩, makeLock uid info type⟩).advance = ⟨earlier, rest⟩ ∧
      Progress base uid type range ⟨earlier, rest⟩ (nextStart rest) rest.tail := by
  obtain ⟨_, nextNonempty, nextSound, fitsTail⟩ := progress.fitsRest
  have fitsRest : Fits Lock.Sound next.start (next :: rest) (2 ^ 64 - 1) :=
    ⟨Nat.le_refl _, nextNonempty, nextSound, fitsTail⟩
  obtain ⟨ahead, fitsNext⟩ := fits_nextStart fitsTail
  obtain ⟨earlier, joined, placed, sameStop⟩ := @place_swallows _ _ ⟨⟨position, next.start⟩,
    makeLock uid info type⟩ before rest next nonempty makeLock_sound progress.fitsBefore
    nextSound rfl (own.trans makeLock_holders.symm)
  obtain ⟨fitsBefore, old, filled, unchanged⟩ := progress.place nonempty inside fitsRest placed
  rw [placed]
  have unfilled : ∀ key, next.stop ≤ key → key < nextStart rest →
      held (⟨joined :: earlier, rest⟩ : Cursor _).contents key = none ∧
        base.held key = none := by
    intro key after early
    have gone : held (before.reverse ++ next :: rest) key = none := by
      rw [append_cons, ← reverse_cons]
      apply held_gap _ fitsNext after early
      rw [reverse_cons]
      exact Data.fits_around (progress.fitsBefore.widen (Nat.le_refl 0) (by omega))
        nextNonempty nextSound (Nat.le_refl next.stop)
    rw [old key (by omega), ← progress.unchanged key (by omega)]
    exact ⟨gone, gone⟩
  have islandHere : ∀ key, range.Contains key → next.stop ≤ key → key < nextStart rest →
      Island base uid type range next := by
    intro key contained after early
    obtain ⟨done, same⟩ := progress.remains
    refine ⟨by simp [same], by have := progress.started; omega,
      Nat.lt_of_le_of_lt after contained.2, own, (filled _ (by omega) (by omega)).1, ?_⟩
    exact (unfilled next.stop (Nat.le_refl _) (by omega)).2
  refine ⟨joined :: earlier, rfl, fitsBefore.widen (Nat.le_refl 0) (sameStop ▸ ahead), fitsNext, ?_,
    Nat.le_trans progress.started (by omega), ?_, ?_, ?_⟩
  · obtain ⟨done, same⟩ := progress.remains
    exact ⟨done ++ [next], by simp [same]⟩
  · exact fun key outside => unchanged key fun both => outside ⟨both.1, by omega⟩
  · intro key contained early
    by_cases past : key < position
    · rw [old key (by omega)]
      exact progress.settled key contained past
    by_cases inGap : key < next.start
    · exact .inl (filled key (by omega) inGap).2
    by_cases inNext : key < next.stop
    · -- the swallowed segment is held as requested already
      left
      have looked := progress.held_rest mem_cons_self ⟨by omega, inNext⟩
      have current := (old key (by omega)).trans (progress.unchanged key (by omega))
      rw [current, looked, holdersAt_some looked, own, Holders.grant_grant_free]
    · obtain ⟨missed, free⟩ := unfilled key (by omega) early
      exact .inr ⟨missed, free, next, islandHere key contained (by omega) early⟩
  · intro island isIsland notPending
    have afterStart := isIsland.after
    have beforeStop := isIsland.before
    by_cases known : island ∈ next :: rest
    · cases known with
      | head =>
        -- the swallowed segment is an island: the offset behind it has been missed
        have early : next.stop < nextStart rest := by
          cases rest with
          | nil => exact Nat.lt_of_lt_of_le beforeStop bounded
          | cons second tail =>
            apply Nat.lt_of_le_of_ne ahead
            intro touches
            have covers : second.Contains next.stop := ⟨Nat.le_of_eq touches.symm, touches ▸ fitsTail.2.1⟩
            have looked := progress.held_rest (mem_cons_of_mem _ mem_cons_self) covers
            rw [isIsland.freeAfter] at looked
            cases looked
        exact ⟨next.stop, ⟨by omega, beforeStop⟩, early, (unfilled next.stop (Nat.le_refl _) early).1⟩
      | tail _ inRest =>
        cases rest with
        | nil => cases inRest
        | cons second tail =>
          cases inRest with
          | tail _ inTail => exact absurd inTail notPending
          | head =>
            -- the gap before it has been missed
            have late : next.stop ≤ island.start - 1 := by
              apply Nat.le_of_not_lt
              intro inNext
              have looked := progress.held_rest mem_cons_self
                (show next.Contains (island.start - 1) from ⟨by
                  have := fitsTail.1
                  omega, inNext⟩)
              rw [isIsland.freeBefore] at looked
              cases looked
            have nonemptyIsland := fitsTail.2.1
            have early : island.start - 1 < nextStart (island :: tail) := by
              simp only [nextStart]
              omega
            exact ⟨island.start - 1, ⟨by omega, by omega⟩, early, (unfilled _ late early).1⟩
    · obtain ⟨key, contained, early, missed⟩ := progress.skipped island isIsland known
      refine ⟨key, contained, by omega, ?_⟩
      rw [old key (by omega)]
      exact missed

def Reached (range : Range) (rest : List (Segment (Lock Owner))) (position : Nat) : Prop :=
  ∀ key, range.Contains key → position ≤ key → nextStart rest ≤ key

theorem gap_intersect (here : max ((⟨before, rest⟩ : Cursor _).gap lockSetFunctions).start
      range.start = position) :
    ((⟨before, rest⟩ : Cursor _).gap lockSetFunctions).intersect range =
      ⟨position, max position (min (nextStart rest) range.stop)⟩ := by
  simp only [Range.intersect, here]
  cases rest <;> rfl

variable (progress : Progress base uid type range ⟨before, rest⟩ position rest)
  (here : max ((⟨before, rest⟩ : Cursor _).gap lockSetFunctions).start range.start = position)
  (bounded : range.stop ≤ 2 ^ 64 - 1)

include progress here bounded

theorem Progress.insert (nonempty : position < min (nextStart rest) range.stop) :
    ∃ earlier later reached, ((⟨before, rest⟩ : Cursor _).insert lockSetFunctions
        (((⟨before, rest⟩ : Cursor _).gap lockSetFunctions).intersect range)
        (makeLock uid info type)).map Cursor.advance = some ⟨earlier, later⟩ ∧
      Progress base uid type range ⟨earlier, later⟩ reached later.tail ∧ later <:+ rest ∧
      Reached range later reached := by
  have fitsNext : Fits Lock.Sound (nextStart rest) rest (2 ^ 64 - 1) := (fits_nextStart progress.fitsRest).2
  rw [gap_intersect here, Nat.max_eq_right (Nat.le_of_lt nonempty)]
  generalize stops : min (nextStart rest) range.stop = stop at nonempty
  have fitsRest : Fits Lock.Sound stop rest (2 ^ 64 - 1) := fitsNext.widen (by omega) (Nat.le_refl _)
  rw [@Cursor.insert_exists _ _ _ ⟨before, rest⟩ ⟨position, stop⟩ _ _ _ progress.fitsBefore
    nonempty fitsRest, map_some]
  by_cases swallows : ∃ next tail, rest = next :: tail ∧ next.start = stop ∧
      next.value.holders = Holders.free.grant uid type
  · obtain ⟨next, tail, rfl, rfl, own⟩ := swallows
    obtain ⟨earlier, placed, progress⟩ := progress.swallow info nonempty (by omega) bounded own
    exact ⟨earlier, tail, nextStart tail, congrArg some placed, progress,
      suffix_cons next tail, fun _ _ after => after⟩
  obtain ⟨earlier, placed, progress⟩ := progress.fill info nonempty (by omega) fitsRest
    (fun next tail same touches own => swallows ⟨next, tail, same, touches, own⟩)
    (fun next tail same early => by
      subst same
      simp only [nextStart] at stops
      omega)
  exact ⟨earlier, rest, stop, congrArg some placed, progress, suffix_refl rest,
    fun key contained after => by
      have := contained.2
      omega⟩

theorem Progress.fillGap (touched : range.start < position → base.held (position - 1) ≠ none) :
    ∃ earlier later reached, fillGap uid info type range ⟨before, rest⟩ = some ⟨earlier, later⟩ ∧
      Progress base uid type range ⟨earlier, later⟩ reached later.tail ∧ later <:+ rest ∧
      Reached range later reached := by
  simp only [LockSet.fillGap, gap_intersect here, Range.length]
  by_cases nonempty : position < min (nextStart rest) range.stop
  · rw [if_pos (by omega), ← gap_intersect here]
    exact progress.insert here bounded nonempty
  rw [if_neg (by omega)]
  refine ⟨before, rest, position, rfl, { progress with skipped := ?_ }, suffix_refl rest, ?_⟩
  · intro island isIsland notPending
    apply progress.skipped island isIsland
    intro inRest
    cases rest with
    | nil => cases inRest
    | cons next tail =>
      cases inRest with
      | tail _ inTail => exact notPending inTail
      | head =>
        -- an island does not start where a locked segment ends
        have bounds := progress.fitsRest
        have beforeStop := isIsland.before
        simp only [nextStart] at nonempty
        have touches : island.start = position := by
          have := bounds.1
          have := bounds.2.1
          omega
        have free := isIsland.freeBefore
        rw [touches] at free
        exact touched (touches ▸ isIsland.after) free
  · intro key contained after
    have := contained.2
    omega

end Fill

section Step

variable {later : List (Segment (Lock Owner))}

section

variable (progress : Progress base uid type range ⟨before, segment :: rest⟩ position rest)
include progress

theorem Progress.relock {taken : Lock Owner}
    (reached : Reached range (segment :: rest) position) (inside : segment.stop ≤ range.stop)
    (sound : taken.Sound) (granted : taken.holders = segment.value.holders.grant uid type) :
    Progress base uid type range ⟨{ segment with value := taken } :: before, rest⟩
      segment.stop rest := by
  obtain ⟨after, nonempty, _, fitsRest⟩ := progress.fitsRest
  have started := progress.started
  have fitsBefore := progress.fitsBefore.widen (Nat.le_refl 0) after
  have contents : (⟨{ segment with value := taken } :: before, rest⟩ : Cursor _).contents =
      before.reverse ++ { segment with value := taken } :: rest :=
    @Cursor.advance_contents _ ⟨before, { segment with value := taken } :: rest⟩
  have others : ∀ key, ¬ segment.Contains key →
      held (⟨{ segment with value := taken } :: before, rest⟩ : Cursor _).contents key =
        held (⟨before, segment :: rest⟩ : Cursor _).contents key := by
    intro key outside
    rw [contents]
    exact (@Data.lookup_around _ _ _ _ { segment with value := taken } _ _ outside).trans
      (Data.lookup_around outside).symm
  refine ⟨?_, fitsRest, ?_, by omega, ?_, ?_, ?_⟩
  · rw [reverse_cons]
    exact Data.fits_around fitsBefore nonempty sound (Nat.le_refl segment.stop)
  · obtain ⟨done, same⟩ := progress.remains
    exact ⟨done ++ [segment], by simp [same]⟩
  · intro key outside
    have notIn : ¬ segment.Contains key := by
      intro covers
      exact outside ⟨⟨Nat.le_trans started (Nat.le_trans after covers.1),
        Nat.lt_of_lt_of_le covers.2 inside⟩, covers.2⟩
    rw [others key notIn]
    exact progress.unchanged key fun both => outside ⟨both.1, by omega⟩
  · intro key contained early
    by_cases past : key < position
    · rw [others key fun covers => by have := covers.1; omega]
      exact progress.settled key contained past
    have covers : segment.Contains key := ⟨reached key contained (Nat.le_of_not_lt past), early⟩
    left
    rw [holdersAt_some (progress.held_rest mem_cons_self covers), ← granted, contents]
    have fits : Valid (before.reverse ++ { segment with value := taken } :: rest) :=
      Data.fits_append.mpr ⟨segment.start, fitsBefore, Nat.le_refl _, nonempty, sound, fitsRest⟩
    exact fits.lookup_at covers
  · intro island isIsland notPending
    obtain ⟨key, contained, early, missed⟩ := progress.skipped island isIsland notPending
    refine ⟨key, contained, by omega, ?_⟩
    rw [others key fun covers => by have := covers.1; omega]
    exact missed

theorem Progress.lockSegment (info : OwnerInfo) (reached : Reached range (segment :: rest) position)
    (early : segment.start < range.stop) (inside : segment.stop ≤ range.stop) (bounded : range.stop ≤ 2 ^ 64 - 1)
    (allows : ∀ key, range.Contains key → (base.holdersAt key).Allows uid type) :
    ∃ earlier later next, lockSegment uid info type range ⟨before, segment :: rest⟩ =
        some ⟨earlier, later⟩ ∧
      Progress base uid type range ⟨earlier, later⟩ next later.tail ∧ later <:+ rest ∧
      Reached range later next := by
  obtain ⟨after, nonempty, segmentSound, _⟩ := progress.fitsRest
  have started := progress.started
  have here := progress.held_rest mem_cons_self
    (show segment.Contains segment.start from ⟨Nat.le_refl _, nonempty⟩)
  have allowed := allows segment.start ⟨by omega, early⟩
  rw [holdersAt_some here] at allowed
  obtain ⟨taken, locked, sound, granted⟩ := @lock_exists _ _ _ _ info _ segmentSound allowed
  simp only [LockSet.lockSegment, locked]
  apply (progress.relock reached inside sound granted).fillGap _ bounded
  · intro _
    rw [progress.held_rest mem_cons_self
      (show segment.Contains (segment.stop - 1) from ⟨by omega, by omega⟩)]
    simp
  · simp only [Cursor.gap]
    omega

end

structure Taken (base : LockSet Owner) (uid : Owner) (type : LockType) (range : Range)
    (set : LockSet Owner) : Prop where
  valid : set.Valid
  unchanged : ∀ key, ¬ range.Contains key → set.held key = base.held key
  settled : ∀ key, range.Contains key →
    set.held key = some ((base.holdersAt key).grant uid type) ∨
      set.held key = none ∧ base.held key = none ∧
        ∃ segment, Island base uid type range segment
  skipped : ∀ segment, Island base uid type range segment →
    ∃ key, range.Contains key ∧ set.held key = none

theorem Progress.taken (progress : Progress base uid type range cursor position cursor.rest.tail)
    (reached : Reached range cursor.rest position)
    (ended : range.stop ≤ nextStart cursor.rest) : Taken base uid type range cursor.contents := by
  have past : ∀ key, range.Contains key → key < position := by
    intro key contained
    apply Nat.lt_of_not_le
    intro after
    have := reached key contained after
    have := contained.2
    omega
  refine ⟨Data.fits_append.mpr ⟨position, progress.fitsBefore, progress.fitsRest⟩, ?_, ?_, ?_⟩
  · intro key outside
    exact progress.unchanged key fun both => outside both.1
  · intro key contained
    exact progress.settled key contained (past key contained)
  · intro island isIsland
    have notPending : island ∉ cursor.rest.tail := by
      intro pending
      have fits := (fits_nextStart progress.fitsRest).2
      have bounds := fits.mem (mem_of_mem_tail pending)
      have := isIsland.before
      omega
    obtain ⟨key, contained, _, missed⟩ := progress.skipped island isIsland notPending
    exact ⟨key, contained, missed⟩

end Step

section Loop

variable {other : LockSet Owner} {done : List (Segment (Lock Owner))} {middle : Nat}

/-- Two sets that differ only by a cut at the start or at the end of the range. -/
structure Alike (base other : LockSet Owner) (range : Range) : Prop where
  held : ∀ key, other.held key = base.held key
  members : ∀ segment : Segment (Lock Owner), range.start < segment.start →
    segment.stop < range.stop → (segment ∈ other ↔ segment ∈ base)

theorem alike_parts (valid : Valid (done ++ segment :: rest)) (after : segment.start < middle)
    (before : middle < segment.stop) (cut : middle = range.start ∨ middle = range.stop) :
    Alike (done ++ segment :: rest)
      (done ++ (Cursor.parts lockSetFunctions segment middle).1 ::
        (Cursor.parts lockSetFunctions segment middle).2 :: rest) range := by
  refine ⟨(Cursor.parts_spec lockSetFunctions_lawful valid after before).2, ?_⟩
  intro member late early
  have first : member ≠ (Cursor.parts lockSetFunctions segment middle).1 := by
    rintro rfl
    simp only [Cursor.parts] at late early
    omega
  have second : member ≠ (Cursor.parts lockSetFunctions segment middle).2 := by
    rintro rfl
    simp only [Cursor.parts] at late early
    omega
  have whole : member ≠ segment := by
    rintro rfl
    omega
  simp only [mem_append, mem_cons, first, second, whole, false_or]

theorem Alike.holdersAt (alike : Alike base other range) (key : Nat) :
    other.holdersAt key = base.holdersAt key := by
  rw [LockSet.holdersAt, alike.held, LockSet.holdersAt]

theorem Alike.island (alike : Alike base other range) :
    Island other uid type range segment ↔ Island base uid type range segment := by
  constructor
  · intro island
    obtain ⟨member, after, before, own, freeBefore, freeAfter⟩ := island
    rw [alike.held] at freeBefore freeAfter
    exact ⟨(alike.members segment after before).mp member, after, before, own, freeBefore, freeAfter⟩
  · intro island
    obtain ⟨member, after, before, own, freeBefore, freeAfter⟩ := island
    rw [← alike.held] at freeBefore freeAfter
    exact ⟨(alike.members segment after before).mpr member, after, before, own, freeBefore, freeAfter⟩

theorem Taken.transfer (taken : Taken other uid type range set)
    (alike : Alike base other range) : Taken base uid type range set where
  valid := taken.valid
  unchanged key outside := (taken.unchanged key outside).trans (alike.held key)
  settled key contained := by
    have settled := taken.settled key contained
    simp only [alike.held, alike.holdersAt, alike.island] at settled
    exact settled
  skipped island isIsland := taken.skipped island (alike.island.mpr isIsland)

theorem Alike.refl : Alike base base range :=
  ⟨fun _ => rfl, fun _ _ _ => Iff.rfl⟩

theorem Progress.splitLast (valid : base.Valid)
    (progress : Progress base uid type range ⟨before, segment :: rest⟩ position rest)
    (early : segment.start < range.stop) :
    ∃ other first later, splitLast range.stop ⟨before, segment :: rest⟩ =
        ⟨before, first :: later⟩ ∧ other.Valid ∧ Alike base other range ∧
      Progress other uid type range ⟨before, first :: later⟩ position later ∧
      first.start = segment.start ∧ first.stop ≤ range.stop ∧
      later.countP (fun segment => segment.start < range.stop) =
        rest.countP (fun segment => segment.start < range.stop) := by
  by_cases long : segment.stop > range.stop
  · have split : LockSet.splitLast range.stop ⟨before, segment :: rest⟩ =
        ⟨before, (Cursor.parts lockSetFunctions segment range.stop).1 ::
          (Cursor.parts lockSetFunctions segment range.stop).2 :: rest⟩ :=
      if_pos (decide_eq_true long)
    obtain ⟨done, rfl⟩ := progress.remains
    have alike := @alike_parts _ _ range segment rest done range.stop valid early long (.inr rfl)
    have fits : Valid (before.reverse ++ segment :: rest) :=
      Data.fits_append.mpr ⟨position, progress.fitsBefore, progress.fitsRest⟩
    obtain ⟨_, same⟩ := Cursor.parts_spec lockSetFunctions_lawful fits early long
    have fitsRest : Fits Lock.Sound position ([] ++ segment :: rest) (2 ^ 64 - 1) := progress.fitsRest
    refine ⟨_, _, _, split, (Cursor.parts_spec lockSetFunctions_lawful valid early long).1, alike,
      ⟨progress.fitsBefore, (Cursor.parts_spec lockSetFunctions_lawful fitsRest early long).1,
      ⟨done, rfl⟩, progress.started, ?_, ?_, ?_⟩, rfl, Nat.le_refl _, ?_⟩
    · intro key outside
      rw [alike.held, ← progress.unchanged key outside]
      exact same key
    · intro key contained past
      have settled := progress.settled key contained past
      have current : _ = held (⟨before, segment :: rest⟩ : Cursor _).contents key := same key
      simp only [alike.held, alike.holdersAt, alike.island]
      rw [← current] at settled
      exact settled
    · intro island isIsland notPending
      obtain ⟨key, contained, past, missed⟩ := progress.skipped island (alike.island.mp isIsland)
        fun pending => notPending (mem_cons_of_mem _ pending)
      exact ⟨key, contained, past, (same key).trans missed⟩
    · simp [Cursor.parts]
  · have whole : LockSet.splitLast range.stop ⟨before, segment :: rest⟩ =
        ⟨before, segment :: rest⟩ := if_neg (by simpa using long)
    exact ⟨base, segment, rest, whole, valid, .refl, progress, rfl, Nat.le_of_not_lt long, rfl⟩

/-- The loop ends, and has taken the lock wherever no island made it miss an offset. -/
theorem lockLoop_exists {fuel : Nat} (valid : base.Valid) (bounded : range.stop ≤ 2 ^ 64 - 1)
    (allows : ∀ key, range.Contains key → (base.holdersAt key).Allows uid type)
    (progress : Progress base uid type range cursor position cursor.rest.tail)
    (reached : Reached range cursor.rest position)
    (enough : cursor.rest.countP (fun segment => segment.start < range.stop) < fuel) :
    ∃ set, lockLoop uid info type range fuel cursor = some set ∧
      Taken base uid type range set := by
  induction fuel generalizing base cursor position with
  | zero => exact absurd enough (Nat.not_lt_zero _)
  | succ fuel ih =>
    obtain ⟨before, rest⟩ := cursor
    cases rest with
    | nil => exact ⟨_, rfl, progress.taken reached bounded⟩
    | cons segment rest =>
      simp only [lockLoop, List.head?_cons, any_some, decide_eq_true_eq]
      by_cases early : segment.start < range.stop
      · rw [if_pos early]
        simp only [countP_cons, early, decide_true, if_true] at enough
        obtain ⟨other, first, later, split, otherValid, alike, progress, sameStart, inside,
          sameCount⟩ := progress.splitLast valid early
        have allows : ∀ key, range.Contains key → (other.holdersAt key).Allows uid type :=
          fun key contained => alike.holdersAt key ▸ allows key contained
        have reached : Reached range (first :: later) position := fun key contained after =>
          Nat.le_trans (Nat.le_of_eq sameStart) (reached key contained after)
        rw [split]
        obtain ⟨earlier, last, next, locked, progress, shorter, reached⟩ :=
          progress.lockSegment info reached (sameStart ▸ early) inside bounded allows
        have fewer : last.countP (fun segment => segment.start < range.stop) ≤
            later.countP (fun segment => segment.start < range.stop) :=
          shorter.sublist.countP_le
        obtain ⟨set, looped, taken⟩ := ih otherValid allows progress reached (show last.countP _ < fuel by omega)
        exact ⟨set, by rw [locked]; exact looped, taken.transfer alike⟩
      · rw [if_neg early]
        exact ⟨_, rfl, progress.taken reached (Nat.le_of_not_lt early)⟩

end Loop

section Lock

theorem progress_start (fitsBefore : Fits Lock.Sound 0 before.reverse range.start)
    (fitsRest : Fits Lock.Sound range.start rest (2 ^ 64 - 1))
    (ahead : ∀ segment ∈ rest, range.start < segment.start → segment ∈ pending) :
    Progress (before.reverse ++ rest) uid type range ⟨before, rest⟩ range.start pending := by
  refine ⟨fitsBefore, fitsRest, ⟨before.reverse, rfl⟩, Nat.le_refl _, fun _ _ => rfl, ?_, ?_⟩
  · intro key contained early
    exact absurd contained.1 (Nat.not_le_of_lt early)
  · intro island isIsland notPending
    have after := isIsland.after
    cases mem_append.mp isIsland.member with
    | inl early =>
      have := fitsBefore.mem early
      omega
    | inr late => exact absurd (ahead island late after) notPending

section

variable (valid : set.Valid) (nonempty : range.start < range.stop)
include valid nonempty

theorem lockStart_exists (bounded : range.stop ≤ 2 ^ 64 - 1) :
    ∃ base cursor position, lockStart set uid info type range = some cursor ∧ base.Valid ∧
      Alike set base range ∧ Progress base uid type range cursor position cursor.rest.tail ∧
      Reached range cursor.rest position ∧ cursor.rest.length ≤ set.length := by
  obtain ⟨before, rest, sought, rfl, fitsBefore, ends⟩ := Cursor.seek_spec range.start valid
  simp only [lockStart, sought]
  have shorter : rest.length ≤ (before.reverse ++ rest).length := by simp
  by_cases found : (rest.head?.any fun segment => segment.start ≤ range.start) = true
  · rw [if_pos found]
    cases rest with
    | nil => cases found
    | cons segment rest =>
      simp only [List.head?_cons, any_some, decide_eq_true_eq] at found ⊢
      obtain ⟨fitsFirst, segmentNonempty, segmentSound, fitsRest⟩ := Fits.around valid
      have late := ends segment mem_cons_self
      by_cases straddles : segment.start < range.start
      · rw [if_pos straddles]
        have split : (⟨before, segment :: rest⟩ : Cursor _).split lockSetFunctions range.start =
            some ⟨before, (Cursor.parts lockSetFunctions segment range.start).1 ::
              (Cursor.parts lockSetFunctions segment range.start).2 :: rest⟩ :=
          if_pos (by simp [Range.canSplitAt, straddles, late])
        rw [split]
        obtain ⟨splitValid, _⟩ := Cursor.parts_spec lockSetFunctions_lawful valid straddles late
        have contents := @Cursor.advance_contents _
          ⟨before, (Cursor.parts lockSetFunctions segment range.start).1 ::
            (Cursor.parts lockSetFunctions segment range.start).2 :: rest⟩
        simp only [Cursor.advance, Cursor.contents] at contents
        have progress := @progress_start _ _ uid type range
          ((Cursor.parts lockSetFunctions segment range.start).1 :: before)
          ((Cursor.parts lockSetFunctions segment range.start).2 :: rest) rest
          (by
            rw [reverse_cons]
            exact Data.fits_around fitsFirst straddles segmentSound (Nat.le_refl range.start))
          ⟨Nat.le_refl range.start, late, segmentSound, fitsRest⟩
          (by
            intro other member after
            cases member with
            | head => exact absurd after (Nat.lt_irrefl _)
            | tail _ member => exact member)
        refine ⟨_, _, _, rfl, ?_, ?_, progress, fun key contained _ => contained.1, shorter⟩
        · rw [contents]
          exact splitValid
        · rw [contents]
          exact alike_parts valid straddles late (.inl rfl)
      · rw [if_neg straddles]
        have same : segment.start = range.start := by omega
        refine ⟨_, ⟨before, segment :: rest⟩, range.start, rfl, valid, .refl,
          progress_start fitsBefore ⟨Nat.le_of_eq same.symm, segmentNonempty, segmentSound,
            fitsRest⟩ ?_, fun key contained _ => ?_, shorter⟩
        · intro other member after
          cases member with
          | head => omega
          | tail _ member => exact member
        · exact Nat.le_trans (Nat.le_of_eq same) contained.1
  · rw [if_neg found]
    have ahead : range.start < nextStart rest := by
      cases rest with
      | nil => exact Nat.lt_of_lt_of_le nonempty bounded
      | cons segment rest => simpa [nextStart] using found
    obtain ⟨middle, _, fitsRest⟩ := Data.fits_append.mp valid
    have fitsRest := (fits_nextStart fitsRest).2.widen (Nat.le_of_lt ahead) (Nat.le_refl _)
    have progress := @progress_start _ _ uid type range before rest rest fitsBefore fitsRest
      fun _ member _ => member
    have here : max ((⟨before, rest⟩ : Cursor _).gap lockSetFunctions).start range.start =
        range.start := by
      apply Nat.max_eq_right
      cases before with
      | nil => exact Nat.zero_le _
      | cons previous before =>
        rw [reverse_cons] at fitsBefore
        exact fitsBefore.around.2.2.2.le
    obtain ⟨earlier, later, reached, inserted, progress, suffix, arrives⟩ :=
      @Progress.insert _ _ _ uid info type range _ before rest progress here bounded (by omega)
    exact ⟨_, _, _, inserted, valid, .refl, progress, arrives, Nat.le_trans suffix.length_le shorter⟩

theorem lock_taken (bounded : range.stop ≤ 2 ^ 64 - 1)
    (allows : ∀ key, range.Contains key → (set.holdersAt key).Allows uid type) :
    ∃ taken, set.lock uid info type range = some (true, taken) ∧
      Taken set uid type range taken := by
  obtain ⟨base, cursor, position, started, baseValid, alike, progress, reached, shorter⟩ :=
    @lockStart_exists _ _ set uid info type range valid nonempty bounded
  have allowsBase : ∀ key, range.Contains key → (base.holdersAt key).Allows uid type :=
    fun key contained => alike.holdersAt key ▸ allows key contained
  have enough : cursor.rest.countP (fun segment => segment.start < range.stop) <
      set.length + 2 :=
    Nat.lt_of_le_of_lt countP_le_length (by omega)
  obtain ⟨taken, looped, done⟩ := @lockLoop_exists _ _ base uid info _ _ _ _ _ baseValid bounded
    allowsBase progress reached enough
  refine ⟨taken, ?_, done.transfer alike⟩
  have can := (canLock_iff valid nonempty).mpr allows
  simp only [lock, Range.length, can, started, bind_some, looped, map_some]
  rw [if_neg (by omega), if_neg (by omega)]
  rfl

theorem lock_refused (refuses : ¬ ∀ key, range.Contains key → (set.holdersAt key).Allows uid type) :
    set.lock uid info type range = some (false, set) := by
  have cannot : set.canLock uid type range = false :=
    Bool.eq_false_iff.mpr fun can => refuses ((canLock_iff valid nonempty).mp can)
  simp only [lock, Range.length, cannot]
  rw [if_neg (by omega), if_neg (by omega)]
  rfl

end

end Lock

end BVisor.FileLock.LockSet
