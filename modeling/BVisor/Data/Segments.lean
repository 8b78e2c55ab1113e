import Mathlib

/-! Maps from keys to values that are constant on ranges, kept as ascending segments.

A segment set is edited through a cursor: the segments before it, nearest first, and those after
it.  The cursor stands in a gap between two segments, which may be empty, and also on the segment
that follows.  What a segment says about a key is given by a view of its value; a set is compared
with another one only by what it says about each key, so merging and splitting segments do not show.
-/

namespace BVisor.Data

open List Option

universe u v

structure Range where
  start : Nat
  stop : Nat
deriving DecidableEq

namespace Range

def length (range : Range) : Nat :=
  range.stop - range.start

def Contains (range : Range) (key : Nat) : Prop :=
  range.start ≤ key ∧ key < range.stop

instance (range : Range) (key : Nat) : Decidable (range.Contains key) :=
  inferInstanceAs (Decidable (_ ∧ _))

def intersect (first second : Range) : Range :=
  let start := max first.start second.start
  ⟨start, max start (min first.stop second.stop)⟩

def canSplitAt (range : Range) (key : Nat) : Bool :=
  range.start < key && key < range.stop

end Range

structure Segment (β : Type u) extends Range where
  value : β
deriving DecidableEq

/-- How values of adjacent segments merge, and how the value of a segment is split at a key. -/
structure SegmentFunctions (β : Type u) where
  maxKey : Nat
  merge : Range → β → Range → β → Option β
  split : Range → β → Nat → β × β

variable {β : Type u} {γ : Type v}

structure Cursor (β : Type u) where
  before : List (Segment β)
  rest : List (Segment β)

namespace Cursor

def contents (cursor : Cursor β) : List (Segment β) :=
  cursor.before.reverse ++ cursor.rest

def gap (functions : SegmentFunctions β) (cursor : Cursor β) : Range where
  start := match cursor.before with
    | [] => 0
    | previous :: _ => previous.stop
  stop := match cursor.rest with
    | [] => functions.maxKey
    | next :: _ => next.start

def advance (cursor : Cursor β) : Cursor β :=
  match cursor.rest with
  | [] => cursor
  | segment :: rest => ⟨segment :: cursor.before, rest⟩

/-- The first segment that ends after the key, if there is one; it may start after the key. -/
def seek (key : Nat) (before : List (Segment β)) : List (Segment β) → Cursor β
  | [] => ⟨before, []⟩
  | segment :: rest =>
    if segment.stop ≤ key then seek key (segment :: before) rest
    else ⟨before, segment :: rest⟩

def withPrevious (functions : SegmentFunctions β) (segment : Segment β) :
    List (Segment β) → List (Segment β) × Segment β
  | [] => ([], segment)
  | previous :: before =>
    if previous.stop = segment.start then
      match functions.merge previous.toRange previous.value segment.toRange segment.value with
      | some value => (before, ⟨⟨previous.start, segment.stop⟩, value⟩)
      | none => (previous :: before, segment)
    else (previous :: before, segment)

def withNext (functions : SegmentFunctions β) (segment : Segment β) :
    List (Segment β) → Segment β × List (Segment β)
  | [] => (segment, [])
  | next :: rest =>
    if next.start = segment.stop then
      match functions.merge segment.toRange segment.value next.toRange next.value with
      | some value => (⟨⟨segment.start, next.stop⟩, value⟩, rest)
      | none => (segment, next :: rest)
    else (segment, next :: rest)

/-- Puts a segment into the gap at the cursor, merged with its neighbours where they allow it. -/
def place (functions : SegmentFunctions β) (cursor : Cursor β) (segment : Segment β) : Cursor β :=
  let (before, segment) := withPrevious functions segment cursor.before
  let (segment, rest) := withNext functions segment cursor.rest
  ⟨before, segment :: rest⟩

/-- `none` if the range is empty or does not lie in the gap. -/
def insert (functions : SegmentFunctions β) (cursor : Cursor β) (range : Range) (value : β) : Option (Cursor β) :=
  if range.length = 0 then none
  else if cursor.before.head?.any fun previous => range.start < previous.stop then none
  else if cursor.rest.head?.any fun next => next.start < range.stop then none
  else some (cursor.place functions ⟨range, value⟩)

/-- Cuts the segment at the cursor in two; the cursor stands on the first part. -/
def splitUnchecked (functions : SegmentFunctions β) (cursor : Cursor β) (key : Nat) : Cursor β :=
  match cursor.rest with
  | [] => cursor
  | segment :: rest =>
    let (first, second) := functions.split segment.toRange segment.value key
    ⟨cursor.before, ⟨⟨segment.start, key⟩, first⟩ :: ⟨⟨key, segment.stop⟩, second⟩ :: rest⟩

/-- `none` if the key does not cut the segment at the cursor into two parts. -/
def split (functions : SegmentFunctions β) (cursor : Cursor β) (key : Nat) : Option (Cursor β) :=
  if cursor.rest.head?.any fun segment => segment.canSplitAt key then
    some (cursor.splitUnchecked functions key)
  else none

/-- Cuts off what the segment at the cursor has below `start`. -/
def splitBefore (functions : SegmentFunctions β) (cursor : Cursor β) (start : Nat) : Cursor β :=
  if cursor.rest.head?.any fun segment => segment.canSplitAt start then
    (cursor.splitUnchecked functions start).advance
  else cursor

/-- Cuts off what the segment at the cursor has at `stop` and above. -/
def splitAfter (functions : SegmentFunctions β) (cursor : Cursor β) (stop : Nat) : Cursor β :=
  if cursor.rest.head?.any fun segment => segment.canSplitAt stop then
    cursor.splitUnchecked functions stop
  else cursor

/-- Cuts the segment at the cursor down to its part inside the range. -/
def isolate (functions : SegmentFunctions β) (cursor : Cursor β) (range : Range) : Cursor β :=
  (cursor.splitBefore functions range.start).splitAfter functions range.stop

end Cursor

def findSegment (segments : List (Segment β)) (key : Nat) : Option (Segment β) :=
  match (Cursor.seek key [] segments).rest with
  | [] => none
  | segment :: _ => if segment.start ≤ key then some segment else none

/-- `none` if the range overlaps a segment or is empty. -/
def tryInsertRange (functions : SegmentFunctions β) (segments : List (Segment β)) (range : Range)
    (value : β) : Option (List (Segment β)) :=
  if (findSegment segments range.start).isSome then none
  else if ((Cursor.seek range.start [] segments).gap functions).stop < range.stop then none
  else ((Cursor.seek range.start [] segments).insert functions range value).map Cursor.contents

def spanFrom (range : Range) : List (Segment β) → Nat
  | [] => 0
  | segment :: rest =>
    if segment.start < range.stop then
      (segment.intersect range).length + spanFrom range rest
    else 0

def spanRange (segments : List (Segment β)) (range : Range) : Nat :=
  if range.length = 0 then 0 else spanFrom range (Cursor.seek range.start [] segments).rest

/-- The segments are not empty, hold good values, ascend without overlapping and lie in
`[lo, hi)`. -/
def Fits (good : β → Prop) (lo : Nat) (segments : List (Segment β)) (hi : Nat) : Prop :=
  match segments with
  | [] => lo ≤ hi
  | segment :: rest => lo ≤ segment.start ∧ segment.start < segment.stop ∧ good segment.value ∧
      Fits good segment.stop rest hi

/-- What the segments say about a key; `none` outside of all of them. -/
def lookup (view : Nat → β → Nat → γ) (segments : List (Segment β)) (key : Nat) : Option γ :=
  match segments with
  | [] => none
  | segment :: rest =>
    if segment.Contains key then some (view segment.start segment.value key)
    else lookup view rest key

/-- Merging and splitting keep values good and change nothing that the view of a value shows. -/
structure Lawful (functions : SegmentFunctions β) (good : β → Prop) (view : Nat → β → Nat → γ) :
    Prop where
  merge_good : ∀ first value second other merged,
    functions.merge first value second other = some merged → good value → good other → good merged
  merge_left : ∀ first value second other merged key, good value → good other →
    functions.merge first value second other = some merged → first.stop = second.start →
    first.Contains key → view first.start merged key = view first.start value key
  merge_right : ∀ first value second other merged key, good value → good other →
    functions.merge first value second other = some merged → first.stop = second.start →
    first.start < first.stop → second.Contains key →
    view first.start merged key = view second.start other key
  split_good : ∀ range value middle, good value →
    good (functions.split range value middle).1 ∧ good (functions.split range value middle).2
  split_left : ∀ range value middle key, range.start ≤ key → key < middle → middle < range.stop →
    view range.start (functions.split range value middle).1 key = view range.start value key
  split_right : ∀ range value middle key, range.start < middle → middle ≤ key → key < range.stop →
    view middle (functions.split range value middle).2 key = view range.start value key

section Ordered

variable {good : β → Prop} {lo hi : Nat} {segment : Segment β}
  {segments first second : List (Segment β)}

theorem Fits.le (fits : Fits good lo segments hi) : lo ≤ hi := by
  induction segments generalizing lo with
  | nil => exact fits
  | cons segment rest ih =>
    obtain ⟨above, nonempty, _, fits⟩ := fits
    have := ih fits
    omega

theorem Fits.widen {lower higher : Nat} (fits : Fits good lo segments hi) (below : lower ≤ lo)
    (above : hi ≤ higher) : Fits good lower segments higher := by
  induction segments generalizing lo lower with
  | nil => exact Nat.le_trans below (Nat.le_trans fits above)
  | cons segment rest ih =>
    obtain ⟨inside, nonempty, goodValue, fits⟩ := fits
    exact ⟨Nat.le_trans below inside, nonempty, goodValue, ih fits (Nat.le_refl _)⟩

theorem fits_append : Fits good lo (first ++ second) hi ↔
    ∃ middle, Fits good lo first middle ∧ Fits good middle second hi := by
  induction first generalizing lo with
  | nil =>
    constructor
    · intro fits
      exact ⟨lo, Nat.le_refl lo, fits⟩
    · intro fits
      obtain ⟨middle, below, fits⟩ := fits
      exact fits.widen below (Nat.le_refl hi)
  | cons segment rest ih =>
    constructor
    · intro fits
      obtain ⟨above, nonempty, goodValue, fits⟩ := fits
      obtain ⟨middle, fitsRest, fits⟩ := ih.mp fits
      exact ⟨middle, ⟨above, nonempty, goodValue, fitsRest⟩, fits⟩
    · intro fits
      obtain ⟨middle, ⟨above, nonempty, goodValue, fitsRest⟩, fits⟩ := fits
      exact ⟨above, nonempty, goodValue, ih.mpr ⟨middle, fitsRest, fits⟩⟩

theorem Fits.mem (fits : Fits good lo segments hi) (member : segment ∈ segments) :
    lo ≤ segment.start ∧ segment.start < segment.stop ∧ segment.stop ≤ hi ∧
      good segment.value := by
  induction segments generalizing lo with
  | nil => cases member
  | cons head rest ih =>
    obtain ⟨above, nonempty, goodValue, fits⟩ := fits
    cases member with
    | head => exact ⟨above, nonempty, fits.le, goodValue⟩
    | tail _ member =>
      obtain ⟨lower, bounds⟩ := ih fits member
      exact ⟨by omega, bounds⟩

theorem Fits.around (fits : Fits good lo (first ++ segment :: second) hi) :
    Fits good lo first segment.start ∧ segment.start < segment.stop ∧ good segment.value ∧
      Fits good segment.stop second hi := by
  obtain ⟨middle, fitsFirst, above, fits⟩ := fits_append.mp fits
  exact ⟨fitsFirst.widen (Nat.le_refl lo) above, fits⟩

theorem fits_around (fitsFirst : Fits good lo first segment.start)
    (nonempty : segment.start < segment.stop) (goodValue : good segment.value)
    (fitsSecond : Fits good segment.stop second hi) :
    Fits good lo (first ++ segment :: second) hi :=
  fits_append.mpr ⟨segment.start, fitsFirst, Nat.le_refl _, nonempty, goodValue, fitsSecond⟩

end Ordered

section Lookup

variable {good : β → Prop} {view : Nat → β → Nat → γ} {lo hi key : Nat} {segment : Segment β}
  {found : γ} {segments first second : List (Segment β)}

theorem lookup_append : lookup view (first ++ second) key =
    (lookup view first key).or (lookup view second key) := by
  induction first with
  | nil => rfl
  | cons segment rest ih =>
    simp only [cons_append, lookup]
    by_cases inside : segment.Contains key
    · simp only [if_pos inside, some_or]
    · simp only [if_neg inside, ih]

theorem lookup_some (looked : lookup view segments key = some found) :
    ∃ segment ∈ segments, segment.Contains key ∧
      view segment.start segment.value key = found := by
  induction segments with
  | nil => cases looked
  | cons segment rest ih =>
    simp only [lookup] at looked
    by_cases inside : segment.Contains key
    · rw [if_pos inside] at looked
      cases looked
      exact ⟨segment, mem_cons_self, inside, rfl⟩
    · rw [if_neg inside] at looked
      obtain ⟨other, member, inside, same⟩ := ih looked
      exact ⟨other, mem_cons_of_mem segment member, inside, same⟩

theorem Fits.lookup_outside (fits : Fits good lo segments hi) (outside : key < lo ∨ hi ≤ key) :
    lookup view segments key = none := by
  cases looked : lookup view segments key with
  | none => rfl
  | some found =>
    obtain ⟨segment, member, ⟨above, below⟩, -⟩ := lookup_some looked
    have := fits.mem member
    omega

theorem Fits.lookup_at (fits : Fits good lo (first ++ segment :: second) hi)
    (inside : segment.Contains key) : lookup view (first ++ segment :: second) key =
      some (view segment.start segment.value key) := by
  rw [lookup_append, fits.around.1.lookup_outside (.inr inside.1), none_or]
  exact if_pos inside

theorem Fits.lookup_mem (fits : Fits good lo segments hi) (member : segment ∈ segments)
    (inside : segment.Contains key) :
    lookup view segments key = some (view segment.start segment.value key) := by
  obtain ⟨first, second, rfl⟩ := append_of_mem member
  exact fits.lookup_at inside

theorem lookup_around (outside : ¬ segment.Contains key) :
    lookup view (first ++ segment :: second) key = lookup view (first ++ second) key := by
  rw [lookup_append, lookup_append]
  simp only [lookup, if_neg outside]

/-- A segment says what its two halves say. -/
theorem lookup_halves {whole left right : Segment β}
    (covers : whole.Contains key ↔ left.Contains key ∨ right.Contains key)
    (sameLeft : left.Contains key →
      view whole.start whole.value key = view left.start left.value key)
    (sameRight : right.Contains key →
      view whole.start whole.value key = view right.start right.value key) :
    lookup view (whole :: second) key = lookup view (left :: right :: second) key := by
  simp only [lookup]
  by_cases inLeft : left.Contains key
  · rw [if_pos (covers.mpr (.inl inLeft)), if_pos inLeft, sameLeft inLeft]
  rw [if_neg inLeft]
  by_cases inRight : right.Contains key
  · rw [if_pos (covers.mpr (.inr inRight)), if_pos inRight, sameRight inRight]
  · rw [if_neg inRight, if_neg fun inside => (covers.mp inside).elim inLeft inRight]

end Lookup

namespace Cursor

section Edits

variable {functions : SegmentFunctions β} {good : β → Prop} {view : Nat → β → Nat → γ}
  {cursor : Cursor β} {segment : Segment β} {before rest segments : List (Segment β)}
  {range : Range} {lo hi key middle : Nat} {value : β}

theorem advance_contents : cursor.advance.contents = cursor.contents := by
  obtain ⟨before, rest⟩ := cursor
  cases rest with
  | nil => rfl
  | cons segment rest => simp [advance, contents]

theorem seek_contents : (seek key before rest).contents = before.reverse ++ rest := by
  induction rest generalizing before with
  | nil => rfl
  | cons segment rest ih =>
    simp only [seek]
    split
    · rw [ih]
      simp
    · rfl

theorem seek_rest (found : (seek key before rest).rest = segment :: segments) : key < segment.stop := by
  induction rest generalizing before with
  | nil => cases found
  | cons head rest ih =>
    simp only [seek] at found
    split at found
    · exact ih found
    · next ends =>
      cases found
      omega

theorem seek_fits (fitsBefore : Fits good lo before.reverse key)
    (ordered : Fits good lo (before.reverse ++ rest) hi) :
    Fits good lo (seek key before rest).before.reverse key := by
  induction rest generalizing before with
  | nil => exact fitsBefore
  | cons segment rest ih =>
    simp only [seek]
    split
    · next ends =>
      obtain ⟨fitsFirst, nonempty, goodValue, _⟩ := ordered.around
      apply ih
      · rw [reverse_cons]
        exact fits_around fitsFirst nonempty goodValue ends
      · simpa using ordered
    · exact fitsBefore

theorem seek_mem (ordered : Fits good lo (before.reverse ++ rest) hi)
    (member : segment ∈ (seek key before rest).rest) : key < segment.stop := by
  rw [← @seek_contents _ before rest key, contents] at ordered
  cases found : (seek key before rest).rest with
  | nil => simp [found] at member
  | cons head tail =>
    have headEnds := seek_rest found
    rw [found] at ordered member
    obtain ⟨_, _, _, fitsTail⟩ := ordered.around
    cases member with
    | head => exact headEnds
    | tail _ member =>
      have := fitsTail.mem member
      omega

theorem seek_spec (key : Nat) {segments : List (Segment β)} (fits : Fits good 0 segments hi) :
    ∃ before rest, seek key [] segments = ⟨before, rest⟩ ∧ segments = before.reverse ++ rest ∧
      Fits good 0 before.reverse key ∧ ∀ segment ∈ rest, key < segment.stop :=
  ⟨_, _, rfl, (@seek_contents _ [] segments key).symm, seek_fits (Nat.zero_le key) fits, fun _ => seek_mem fits⟩

section

variable (lawful : Lawful functions good view)
include lawful

theorem lookup_merged {left right : Segment β}
    (goodLeft : good left.value) (goodRight : good right.value)
    (merged : functions.merge left.toRange left.value right.toRange right.value = some value)
    (touches : left.stop = right.start) (leftNonempty : left.start < left.stop)
    (rightNonempty : right.start < right.stop) :
    lookup view (⟨⟨left.start, right.stop⟩, value⟩ :: rest) key =
      lookup view (left :: right :: rest) key := by
  refine lookup_halves ?_ (lawful.merge_left _ _ _ _ _ key goodLeft goodRight merged touches)
    (lawful.merge_right left.toRange _ _ _ _ key goodLeft goodRight merged touches leftNonempty)
  simp only [Range.Contains]
  omega

theorem withPrevious_spec
    (fits : Fits good lo before.reverse segment.start) (nonempty : segment.start < segment.stop)
    (goodValue : good segment.value) :
    Fits good lo (withPrevious functions segment before).1.reverse
        (withPrevious functions segment before).2.start ∧
      (withPrevious functions segment before).2.start ≤ segment.start ∧
      (withPrevious functions segment before).2.stop = segment.stop ∧
      good (withPrevious functions segment before).2.value ∧
      ∀ rest key, lookup view ((withPrevious functions segment before).1.reverse ++
          (withPrevious functions segment before).2 :: rest) key =
        lookup view (before.reverse ++ segment :: rest) key := by
  cases before with
  | nil => exact ⟨fits, Nat.le_refl _, rfl, goodValue, fun _ _ => rfl⟩
  | cons previous before =>
    simp only [withPrevious]
    split
    · next touches =>
      split
      · next value merged =>
        rw [reverse_cons] at fits ⊢
        obtain ⟨fitsBefore, nonemptyPrevious, goodPrevious, _⟩ := fits.around
        have lower : previous.start ≤ segment.start := by omega
        have goodMerged := lawful.merge_good _ _ _ _ _ merged goodPrevious goodValue
        refine ⟨fitsBefore, lower, rfl, goodMerged, fun rest key => ?_⟩
        rw [append_assoc, lookup_append, lookup_append, lookup_merged lawful
          goodPrevious goodValue merged touches nonemptyPrevious nonempty]
        rfl
      · exact ⟨fits, Nat.le_refl _, rfl, goodValue, fun _ _ => rfl⟩
    · exact ⟨fits, Nat.le_refl _, rfl, goodValue, fun _ _ => rfl⟩

theorem withNext_spec (nonempty : segment.start < segment.stop) (goodValue : good segment.value)
    (fits : Fits good segment.stop rest hi) :
    (withNext functions segment rest).1.start = segment.start ∧
      segment.stop ≤ (withNext functions segment rest).1.stop ∧
      good (withNext functions segment rest).1.value ∧
      Fits good (withNext functions segment rest).1.stop (withNext functions segment rest).2 hi ∧
      ∀ key, lookup view ((withNext functions segment rest).1 ::
          (withNext functions segment rest).2) key = lookup view (segment :: rest) key := by
  cases rest with
  | nil => exact ⟨rfl, Nat.le_refl _, goodValue, fits, fun _ => rfl⟩
  | cons next rest =>
    simp only [withNext]
    split
    · next touches =>
      split
      · next value merged =>
        obtain ⟨above, nonemptyNext, goodNext, fitsRest⟩ := fits
        have upper : segment.stop ≤ next.stop := by omega
        have goodMerged := lawful.merge_good _ _ _ _ _ merged goodValue goodNext
        exact ⟨rfl, upper, goodMerged, fitsRest, fun key => lookup_merged lawful
          goodValue goodNext merged touches.symm nonempty nonemptyNext⟩
      · exact ⟨rfl, Nat.le_refl _, goodValue, fits, fun _ => rfl⟩
    · exact ⟨rfl, Nat.le_refl _, goodValue, fits, fun _ => rfl⟩

theorem place_spec (fitsBefore : Fits good lo cursor.before.reverse segment.start)
    (nonempty : segment.start < segment.stop) (goodValue : good segment.value)
    (fitsRest : Fits good segment.stop cursor.rest hi) :
    Fits good lo (cursor.place functions segment).contents hi ∧
      ∀ key, lookup view (cursor.place functions segment).contents key =
        lookup view (cursor.before.reverse ++ segment :: cursor.rest) key := by
  obtain ⟨fitsBefore, lower, sameStop, goodValue, looksBefore⟩ :=
    withPrevious_spec lawful fitsBefore nonempty goodValue
  have nonempty : (withPrevious functions segment cursor.before).2.start <
      (withPrevious functions segment cursor.before).2.stop := by omega
  rw [← sameStop] at fitsRest
  obtain ⟨sameStart, upper, goodValue, fitsRest, looksRest⟩ := withNext_spec lawful nonempty goodValue fitsRest
  constructor
  · apply fits_around _ _ goodValue fitsRest
    · rw [sameStart]
      exact fitsBefore
    · omega
  · intro key
    rw [← looksBefore cursor.rest key, lookup_append, ← looksRest, ← lookup_append]
    rfl

end

theorem insert_exists (fitsBefore : Fits good lo cursor.before.reverse range.start)
    (nonempty : range.start < range.stop) (fitsRest : Fits good range.stop cursor.rest hi) :
    cursor.insert functions range value = some (cursor.place functions ⟨range, value⟩) := by
  obtain ⟨before, rest⟩ := cursor
  have notEmpty : ¬ range.length = 0 := by
    simp only [Range.length]
    omega
  have after : ¬ before.head?.any (fun previous => range.start < previous.stop) = true := by
    cases before with
    | nil => exact Bool.false_ne_true
    | cons previous before =>
      rw [reverse_cons] at fitsBefore
      have := fitsBefore.around.2.2.2.le
      simpa only [List.head?_cons, any_some, decide_eq_true_eq, Nat.not_lt]
  have ahead : ¬ rest.head?.any (fun next => next.start < range.stop) = true := by
    cases rest with
    | nil => exact Bool.false_ne_true
    | cons next rest =>
      simpa only [List.head?_cons, any_some, decide_eq_true_eq, Nat.not_lt] using fitsRest.1
  simp only [insert]
  rw [if_neg notEmpty, if_neg after, if_neg ahead]

def parts (functions : SegmentFunctions β) (segment : Segment β) (middle : Nat) : Segment β × Segment β :=
  (⟨⟨segment.start, middle⟩, (functions.split segment.toRange segment.value middle).1⟩,
    ⟨⟨middle, segment.stop⟩, (functions.split segment.toRange segment.value middle).2⟩)

section

variable (lawful : Lawful functions good view)
include lawful

theorem parts_spec (fits : Fits good lo (before ++ segment :: rest) hi)
    (above : segment.start < middle) (below : middle < segment.stop) :
    Fits good lo (before ++ (parts functions segment middle).1 ::
        (parts functions segment middle).2 :: rest) hi ∧
      ∀ key, lookup view (before ++ (parts functions segment middle).1 ::
          (parts functions segment middle).2 :: rest) key =
        lookup view (before ++ segment :: rest) key := by
  obtain ⟨fitsBefore, nonempty, goodValue, fitsRest⟩ := fits.around
  obtain ⟨goodFirst, goodSecond⟩ := lawful.split_good segment.toRange segment.value middle goodValue
  refine ⟨fits_around fitsBefore above goodFirst ⟨Nat.le_refl middle, below, goodSecond, fitsRest⟩, fun key => ?_⟩
  rw [lookup_append, lookup_append]
  congr 1
  refine (lookup_halves ?_ (fun inFirst => ?_) fun inSecond => ?_).symm
  · simp only [Range.Contains, parts]
    omega
  · exact (lawful.split_left segment.toRange segment.value middle key inFirst.1 inFirst.2 below).symm
  · exact (lawful.split_right segment.toRange segment.value middle key above inSecond.1
      inSecond.2).symm

section

variable (fits : Fits good lo (before.reverse ++ segment :: rest) hi)
include fits

theorem splitBefore_spec (late : middle < segment.stop) :
    ∃ earlier inner, (⟨before, segment :: rest⟩ : Cursor β).splitBefore functions middle =
        ⟨earlier, inner :: rest⟩ ∧
      Fits good lo (earlier.reverse ++ inner :: rest) hi ∧
      (∀ key, lookup view (earlier.reverse ++ inner :: rest) key =
        lookup view (before.reverse ++ segment :: rest) key) ∧
      inner.start = max segment.start middle ∧ inner.stop = segment.stop := by
  by_cases straddles : segment.start < middle
  · have split : (⟨before, segment :: rest⟩ : Cursor β).splitBefore functions middle =
        ⟨(parts functions segment middle).1 :: before, (parts functions segment middle).2 :: rest⟩ :=
      if_pos (by simp [Range.canSplitAt, straddles, late])
    obtain ⟨fits, same⟩ := parts_spec lawful fits straddles late
    have contents := @advance_contents _ ⟨before, (parts functions segment middle).1 ::
      (parts functions segment middle).2 :: rest⟩
    simp only [advance, Cursor.contents] at contents
    rw [← contents] at fits same
    exact ⟨_, _, split, fits, same, (Nat.max_eq_right (Nat.le_of_lt straddles)).symm, rfl⟩
  · have whole : (⟨before, segment :: rest⟩ : Cursor β).splitBefore functions middle =
        ⟨before, segment :: rest⟩ :=
      if_neg (by simp [Range.canSplitAt, straddles])
    exact ⟨_, _, whole, fits, fun _ => rfl, (Nat.max_eq_left (by omega)).symm, rfl⟩

theorem splitAfter_spec (early : segment.start < middle) :
    ∃ inner later, (⟨before, segment :: rest⟩ : Cursor β).splitAfter functions middle =
        ⟨before, inner :: later⟩ ∧
      Fits good lo (before.reverse ++ inner :: later) hi ∧
      (∀ key, lookup view (before.reverse ++ inner :: later) key =
        lookup view (before.reverse ++ segment :: rest) key) ∧
      inner.start = segment.start ∧ inner.stop = min segment.stop middle ∧
      (later = rest ∨ ∃ outer, later = outer :: rest ∧ outer.start = middle) := by
  by_cases long : middle < segment.stop
  · have split : (⟨before, segment :: rest⟩ : Cursor β).splitAfter functions middle =
        ⟨before, (parts functions segment middle).1 :: (parts functions segment middle).2 :: rest⟩ :=
      if_pos (by simp [Range.canSplitAt, early, long])
    obtain ⟨fits, same⟩ := parts_spec lawful fits early long
    exact ⟨_, _, split, fits, same, rfl, (Nat.min_eq_right (Nat.le_of_lt long)).symm, .inr ⟨_, rfl, rfl⟩⟩
  · have whole : (⟨before, segment :: rest⟩ : Cursor β).splitAfter functions middle =
        ⟨before, segment :: rest⟩ :=
      if_neg (by simp [Range.canSplitAt, long])
    exact ⟨_, _, whole, fits, fun _ => rfl, rfl, (Nat.min_eq_left (by omega)).symm, .inl rfl⟩

theorem isolate_spec (early : segment.start < range.stop) (late : range.start < segment.stop)
    (nonempty : range.start < range.stop) :
    ∃ earlier inner later, (⟨before, segment :: rest⟩ : Cursor β).isolate functions range =
        ⟨earlier, inner :: later⟩ ∧
      Fits good lo (earlier.reverse ++ inner :: later) hi ∧
      (∀ key, lookup view (earlier.reverse ++ inner :: later) key =
        lookup view (before.reverse ++ segment :: rest) key) ∧
      inner.start = max segment.start range.start ∧ inner.stop = min segment.stop range.stop ∧
      (later = rest ∨ ∃ outer, later = outer :: rest ∧ outer.start = range.stop) := by
  obtain ⟨earlier, upper, cut, fits, looksUpper, start, stop⟩ := splitBefore_spec lawful fits late
  obtain ⟨inner, later, cutAgain, fits, looks, sameStart, innerStop, shape⟩ :=
    @splitAfter_spec _ _ _ _ _ _ _ _ _ _ range.stop lawful fits (by omega)
  rw [stop] at innerStop
  exact ⟨earlier, inner, later, by rw [isolate, cut, cutAgain], fits,
    fun key => (looks key).trans (looksUpper key), sameStart.trans start, innerStop, shape⟩

end

end

end Edits

end Cursor

section Sets

variable {functions : SegmentFunctions β} {good : β → Prop} {view : Nat → β → Nat → γ}
  {segments : List (Segment β)} {range : Range} {value : β} {lo hi key : Nat}

theorem lookup_eq_find (fits : Fits good 0 segments hi) :
    lookup view segments key =
      (findSegment segments key).map fun segment => view segment.start segment.value key := by
  obtain ⟨before, rest, sought, rfl, fitsBefore, ends⟩ := Cursor.seek_spec key fits
  rw [findSegment, sought, lookup_append, fitsBefore.lookup_outside (.inr (Nat.le_refl key)), none_or]
  cases rest with
  | nil => rfl
  | cons segment rest =>
    have late := ends segment mem_cons_self
    show _ = Option.map _ (if segment.start ≤ key then some segment else none)
    by_cases early : segment.start ≤ key
    · rw [if_pos early]
      exact if_pos ⟨early, late⟩
    rw [if_neg early]
    obtain ⟨_, _, _, fitsRest⟩ := fits.around
    have outside : ¬ segment.Contains key := fun inside => early inside.1
    simp only [lookup, if_neg outside]
    exact fitsRest.lookup_outside (.inl (by omega))

theorem tryInsertRange_spec (lawful : Lawful functions good view)
    (fits : Fits good 0 segments functions.maxKey) (nonempty : range.start < range.stop)
    (bounded : range.stop ≤ functions.maxKey) (goodValue : good value)
    {inserted : List (Segment β)} (done : tryInsertRange functions segments range value = some inserted) :
    Fits good 0 inserted functions.maxKey ∧
      (∀ key, range.Contains key → lookup view segments key = none) ∧
      ∀ key, lookup view inserted key =
        if range.Contains key then some (view range.start value key)
        else lookup view segments key := by
  obtain ⟨before, rest, sought, rfl, fitsBefore, -⟩ := Cursor.seek_spec range.start fits
  simp only [tryInsertRange, sought] at done
  split at done
  · cases done
  split at done
  · cases done
  next wide =>
  have fitsRest : Fits good range.stop rest functions.maxKey := by
    cases rest with
    | nil => exact bounded
    | cons next rest =>
      obtain ⟨_, nextNonempty, nextGood, fitsRest⟩ := fits.around
      exact ⟨Nat.le_of_not_lt wide, nextNonempty, nextGood, fitsRest⟩
  rw [@Cursor.insert_exists _ _ _ ⟨before, rest⟩ range _ _ _ fitsBefore nonempty fitsRest] at done
  cases done
  obtain ⟨fitsPlaced, looks⟩ := @Cursor.place_spec _ _ _ _ _ ⟨before, rest⟩ ⟨range, value⟩ _ _
    lawful fitsBefore nonempty goodValue fitsRest
  refine ⟨fitsPlaced, fun key inside => ?_, fun key => ?_⟩
  · rw [lookup_append, fitsBefore.lookup_outside (.inr inside.1), fitsRest.lookup_outside (.inl inside.2)]
    rfl
  · rw [looks key]
    by_cases inside : range.Contains key
    · rw [if_pos inside]
      have fits : Fits good 0 (before.reverse ++ ⟨range, value⟩ :: rest) functions.maxKey :=
        fits_append.mpr ⟨range.start, fitsBefore, Nat.le_refl _, nonempty, goodValue, fitsRest⟩
      exact fits.lookup_at inside
    · rw [if_neg inside]
      exact @lookup_around _ _ _ _ ⟨range, value⟩ _ _ inside

theorem spanFrom_le (fits : Fits good lo segments hi) :
    spanFrom range segments ≤ range.stop - max lo range.start := by
  induction segments generalizing lo with
  | nil => exact Nat.zero_le _
  | cons segment rest ih =>
    obtain ⟨above, nonempty, _, fitsRest⟩ := fits
    have remaining := ih fitsRest
    simp only [spanFrom]
    split
    · simp only [Range.intersect, Range.length]
      omega
    · exact Nat.zero_le _

theorem spanFrom_full (fits : Fits good lo segments hi)
    (full : spanFrom range segments = range.stop - max lo range.start)
    (after : max lo range.start ≤ key) (early : key < range.stop) :
    lookup view segments key ≠ none := by
  induction segments generalizing lo with
  | nil =>
    simp only [spanFrom] at full
    omega
  | cons segment rest ih =>
    obtain ⟨above, nonempty, _, fitsRest⟩ := fits
    have remaining := @spanFrom_le _ _ _ range _ _ fitsRest
    simp only [spanFrom] at full
    split at full
    · simp only [Range.intersect, Range.length] at full
      by_cases inside : segment.Contains key
      · simp [lookup, inside]
      · simp only [lookup, if_neg inside]
        simp only [Range.Contains] at inside
        exact ih fitsRest (by omega) (by omega)
    · omega

theorem spanRange_full (fits : Fits good 0 segments hi)
    (full : spanRange segments range = range.length) (inside : range.Contains key) :
    lookup view segments key ≠ none := by
  obtain ⟨before, rest, sought, rfl, fitsBefore, -⟩ := Cursor.seek_spec range.start fits
  have after := inside.1
  have early := inside.2
  rw [spanRange, if_neg (by simp only [Range.length]; omega), Range.length, sought] at full
  obtain ⟨middle, _, fitsRest⟩ := fits_append.mp fits
  have atMost := @spanFrom_le _ _ _ range _ _ fitsRest
  have full : spanFrom range rest = range.stop - range.start := full
  rw [lookup_append, fitsBefore.lookup_outside (.inr after), none_or]
  exact spanFrom_full fitsRest (by omega) (by omega) early

end Sets

end BVisor.Data
