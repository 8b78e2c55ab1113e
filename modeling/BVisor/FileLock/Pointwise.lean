import BVisor.Data.Run
import BVisor.FileLock.Locking

/-! The loop that releases a lock, and whole runs of requests, at each offset. -/

namespace BVisor.FileLock

open Data (Range Segment SegmentFunctions Cursor Fits lookup Lawful run)

variable {Owner : Type} [DecidableEq Owner]

open Holders

namespace Lock

variable {lock : Lock Owner} {uid : Owner}

theorem drop_unheld (unheld : lock.isHeld uid = false) : lock.holders.drop uid = lock.holders := by
  simp only [isHeld, Bool.or_eq_false_iff, decide_eq_false_iff_not] at unheld
  ext owner
  · simp [holders, drop, unheld.2]
  · by_cases own : owner = uid
    · simp [holders, drop, own, unheld.1]
    · simp [holders, drop, own]

theorem drop_writer (sound : lock.Sound) (writes : lock.writer = some uid) : lock.holders.drop uid = .free := by
  ext owner
  · simp [holders, drop, free, writes]
  · simp [holders, drop, free, isReader, sound.exclusive uid writes]

theorem drop_onlyReader (sound : lock.Sound) (reads : lock.isReader uid = true)
    (only : lock.readers.length = 1) : lock.holders.drop uid = .free := by
  have unwritten : lock.writer = none := by
    cases writes : lock.writer with
    | none => rfl
    | some writer => simp [sound.exclusive writer writes] at only
  have single := (@isOnlyReader_iff _ _ lock uid sound unwritten).mp (by simp [isOnlyReader, only, reads])
  ext owner
  · simp [holders, drop, free, unwritten]
  · by_cases own : owner = uid
    · simp [holders, drop, free, own]
    · have unread : lock.isReader owner = false := Bool.eq_false_iff.mpr fun reads => own (single owner reads)
      simp [holders, drop, free, unread]

end Lock

namespace LockSet

variable {base set : LockSet Owner} {uid : Owner} {range : Range} {cursor : Cursor (Lock Owner)}
  {position key : Nat} {segment inner : Segment (Lock Owner)}
  {before rest earlier later : List (Segment (Lock Owner))}

/-- The owner is out of one segment, which is replaced by `kept` together with those before it. -/
structure Cleared (uid : Owner) (earlier later : List (Segment (Lock Owner)))
    (inner : Segment (Lock Owner)) (kept : List (Segment (Lock Owner))) : Prop where
  fits : Fits Lock.Sound 0 kept.reverse inner.stop
  dropped : ∀ key, inner.Contains key → holdersAt (kept.reverse ++ later) key = inner.value.holders.drop uid
  others : ∀ key, ¬ inner.Contains key →
    held (kept.reverse ++ later) key = held (earlier.reverse ++ inner :: later) key

theorem releaseSegment_spec (valid : Valid (earlier.reverse ++ inner :: later)) :
    ∃ kept, releaseSegment uid ⟨earlier, inner :: later⟩ = ⟨kept, later⟩ ∧
      Cleared uid earlier later inner kept := by
  obtain ⟨fitsEarlier, nonempty, sound, fitsLater⟩ := Fits.around valid
  have removed : inner.value.holders.drop uid = .free → Cleared uid earlier later inner earlier := by
    intro gone
    refine ⟨fitsEarlier.widen (Nat.le_refl 0) (Nat.le_of_lt nonempty), fun key inside => ?_,
      fun key outside => (Data.lookup_around outside).symm⟩
    rw [gone]
    exact holdersAt_none (held_gap fitsEarlier fitsLater inside.1 inside.2)
  have replaced : ∀ value : Lock Owner, value.Sound → value.holders = inner.value.holders.drop uid →
      Cleared uid earlier later inner ({ inner with value := value } :: earlier) := by
    intro value valueSound dropped
    have fits : Valid (earlier.reverse ++ { inner with value := value } :: later) :=
      Data.fits_append.mpr ⟨inner.start, fitsEarlier, Nat.le_refl _, nonempty, valueSound, fitsLater⟩
    constructor <;> rw [List.reverse_cons]
    · exact Data.fits_append.mpr ⟨inner.start, fitsEarlier, Nat.le_refl _, nonempty, valueSound, Nat.le_refl _⟩
    · intro key inside
      rw [← dropped, List.append_assoc]
      exact holdersAt_some (fits.lookup_at inside)
    · intro key outside
      rw [List.append_assoc]
      exact (@Data.lookup_around _ _ _ _ { inner with value := value } _ _ outside).trans
        (Data.lookup_around outside).symm
  simp only [releaseSegment]
  by_cases writes : inner.value.writer = some uid
  · rw [if_pos writes]
    exact ⟨_, rfl, removed (Lock.drop_writer sound writes)⟩
  rw [if_neg writes]
  by_cases reads : inner.value.isReader uid = true
  · rw [if_pos reads]
    by_cases only : inner.value.readers.length = 1
    · rw [if_pos only]
      exact ⟨_, rfl, removed (Lock.drop_onlyReader sound reads only)⟩
    rw [if_neg only]
    have unwritten : inner.value.writer = none := by
      cases written : inner.value.writer with
      | none => rfl
      | some writer => simp [Lock.isReader, sound.exclusive writer written] at reads
    exact ⟨_, rfl, replaced _ (Lock.withoutReader_sound sound unwritten only)
      (Lock.withoutReader_holders unwritten)⟩
  · rw [if_neg reads]
    exact ⟨_, rfl, replaced inner.value sound (Lock.drop_unheld (by simp [Lock.isHeld, reads, writes])).symm⟩

structure Released (base : LockSet Owner) (uid : Owner) (range : Range)
    (cursor : Cursor (Lock Owner)) (position : Nat) : Prop where
  fitsBefore : Fits Lock.Sound 0 cursor.before.reverse position
  fitsRest : Fits Lock.Sound position cursor.rest (2 ^ 64 - 1)
  holders : ∀ key, holdersAt cursor.contents key =
    if range.Contains key ∧ key < position then (base.holdersAt key).drop uid
    else base.holdersAt key

theorem Released.valid (released : Released base uid range cursor position) : Valid cursor.contents :=
  Data.fits_append.mpr ⟨position, released.fitsBefore, released.fitsRest⟩

theorem Released.free (released : Released base uid range cursor position)
    (after : position ≤ key) (early : key < nextStart cursor.rest) :
    base.holdersAt key = .free := by
  have unheld := released.holders key
  rw [if_neg (by omega)] at unheld
  rw [← unheld]
  have fitsRest := (fits_nextStart released.fitsRest).2
  exact holdersAt_none (held_gap released.fitsBefore fitsRest after early)

theorem Released.pass (released : Released base uid range ⟨before, segment :: rest⟩ position)
    (unheld : segment.value.isHeld uid = false) :
    Released base uid range ⟨segment :: before, rest⟩ segment.stop := by
  obtain ⟨after, nonempty, sound, fitsRest⟩ := released.fitsRest
  have contents := @Cursor.advance_contents _ ⟨before, segment :: rest⟩
  simp only [Cursor.advance] at contents
  refine ⟨?_, fitsRest, fun key => ?_⟩
  · rw [List.reverse_cons]
    exact Data.fits_around (released.fitsBefore.widen (Nat.le_refl 0) after) nonempty sound (Nat.le_refl _)
  · rw [contents]
    have current := released.holders key
    by_cases past : key < position
    · rw [current]
      simp only [past, show key < segment.stop by omega]
    rw [if_neg fun both => past both.2] at current
    by_cases early : key < segment.stop
    · have same : (base.holdersAt key).drop uid = base.holdersAt key := by
        by_cases gap : key < segment.start
        · rw [released.free (Nat.le_of_not_lt past) gap, drop_free]
        have here := holdersAt_some (Fits.lookup_at released.valid
          (show segment.Contains key from ⟨Nat.le_of_not_lt gap, early⟩))
        rw [show base.holdersAt key = segment.value.holders from current.symm.trans here]
        exact Lock.drop_unheld unheld
      rw [current, same, ite_self]
    · rw [if_neg fun both => early both.2, current]

theorem Released.release (released : Released base uid range ⟨before, segment :: rest⟩ position)
    (early : segment.start < range.stop) (late : range.start < segment.stop)
    (nonempty : range.start < range.stop) :
    ∃ kept later next, releaseSegment uid
        ((⟨before, segment :: rest⟩ : Cursor _).isolate lockSetFunctions range) = ⟨kept, later⟩ ∧
      Released base uid range ⟨kept, later⟩ next ∧
      (later = rest ∨ ∃ outer, later = outer :: rest ∧ outer.start = range.stop) := by
  have valid : Valid (before.reverse ++ segment :: rest) := released.valid
  obtain ⟨earlier, inner, later, isolated, fits, looks, start, stop, shape⟩ :=
    Cursor.isolate_spec lockSetFunctions_lawful valid early late nonempty
  obtain ⟨kept, done, fitsKept, dropped, others⟩ := @releaseSegment_spec _ _ uid _ _ _ fits
  obtain ⟨_, _, _, fitsLater⟩ := Fits.around fits
  have after := released.fitsRest.1
  refine ⟨kept, later, inner.stop, by rw [isolated, done], ⟨fitsKept, fitsLater, fun key => ?_⟩,
    shape⟩
  have current : holdersAt (earlier.reverse ++ inner :: later) key =
      if range.Contains key ∧ key < position then (base.holdersAt key).drop uid
      else base.holdersAt key := by
    rw [← released.holders key]
    exact congrArg (Option.getD · Holders.free) (looks key)
  show holdersAt (kept.reverse ++ later) key = _
  by_cases inside : inner.Contains key
  · have lower := inside.1
    have upper := inside.2
    rw [if_neg (by omega)] at current
    rw [if_pos ⟨⟨by omega, by omega⟩, upper⟩, dropped key inside, ← current,
      holdersAt_some (Fits.lookup_at fits inside)]
  rw [holdersAt, others key inside, ← holdersAt, current]
  by_cases past : range.Contains key ∧ key < position
  · rw [if_pos past, if_pos ⟨past.1, by omega⟩]
  rw [if_neg past]
  by_cases passed : range.Contains key ∧ key < inner.stop
  · -- the range reaches below the segment only in a gap
    have gap : key < segment.start := by
      have : ¬ (inner.start ≤ key ∧ key < inner.stop) := inside
      have := passed.1.1
      omega
    have free := released.free (Nat.le_of_not_lt fun before => past ⟨passed.1, before⟩) gap
    rw [if_pos passed, free, drop_free]
  · rw [if_neg passed]

theorem Released.done (released : Released base uid range cursor position)
    (ended : range.stop ≤ nextStart cursor.rest) (key : Nat) :
    holdersAt cursor.contents key =
      if range.Contains key then (base.holdersAt key).drop uid else base.holdersAt key := by
  rw [released.holders key]
  by_cases inside : range.Contains key
  · by_cases past : key < position
    · rw [if_pos ⟨inside, past⟩, if_pos inside]
    · have free := released.free (Nat.le_of_not_lt past) (Nat.lt_of_lt_of_le inside.2 ended)
      rw [if_neg fun both => past both.2, if_pos inside, free, drop_free]
  · rw [if_neg fun both => inside both.1, if_neg inside]

theorem unlockLoop_exists {fuel : Nat} (nonempty : range.start < range.stop)
    (bounded : range.stop ≤ 2 ^ 64 - 1) (released : Released base uid range cursor position)
    (ends : ∀ segment ∈ cursor.rest, range.start < segment.stop)
    (enough : cursor.rest.countP (fun segment => segment.start < range.stop) < fuel) :
    ∃ set, unlockLoop uid range fuel cursor = some set ∧ set.Valid ∧
      ∀ key, set.holdersAt key =
        if range.Contains key then (base.holdersAt key).drop uid else base.holdersAt key := by
  induction fuel generalizing cursor position with
  | zero => exact absurd enough (Nat.not_lt_zero _)
  | succ fuel ih =>
    obtain ⟨before, rest⟩ := cursor
    cases rest with
    | nil => exact ⟨_, rfl, released.valid, released.done bounded⟩
    | cons segment rest =>
      by_cases early : segment.start < range.stop
      · simp only [List.countP_cons, early, decide_true, if_true] at enough
        have late := ends segment List.mem_cons_self
        have endsRest : ∀ segment ∈ rest, range.start < segment.stop := fun segment member =>
          ends segment (List.mem_cons_of_mem _ member)
        by_cases held : segment.value.isHeld uid = true
        · obtain ⟨kept, later, next, stepped, released, shape⟩ := released.release early late nonempty
          have turn : unlockLoop uid range (fuel + 1) ⟨before, segment :: rest⟩ =
              unlockLoop uid range fuel ⟨kept, later⟩ := by
            simp [unlockLoop, early, held, stepped]
          rw [turn]
          apply ih released
          · obtain rfl | ⟨outer, rfl, start⟩ := shape
            · exact endsRest
            · apply List.forall_mem_cons.mpr ⟨_, endsRest⟩
              have := (released.fitsRest.mem List.mem_cons_self).2.1
              omega
          · obtain rfl | ⟨outer, rfl, start⟩ := shape
            · exact Nat.lt_of_succ_lt_succ enough
            · simp only [List.countP_cons, start, Nat.lt_irrefl, decide_false]
              exact Nat.lt_of_succ_lt_succ enough
        · have turn : unlockLoop uid range (fuel + 1) ⟨before, segment :: rest⟩ =
              unlockLoop uid range fuel ⟨segment :: before, rest⟩ := by
            simp [unlockLoop, early, held, Cursor.advance]
          rw [turn]
          exact ih (released.pass (Bool.eq_false_iff.mpr held)) endsRest (Nat.lt_of_succ_lt_succ enough)
      · have turn : unlockLoop uid range (fuel + 1) ⟨before, segment :: rest⟩ =
            some (Cursor.mk before (segment :: rest)).contents := by
          simp [unlockLoop, early]
        exact ⟨_, turn, released.valid, released.done (Nat.le_of_not_lt early)⟩

theorem not_contains (empty : range.length = 0) : ¬ range.Contains key := by
  simp only [Range.length, Range.Contains] at empty ⊢
  omega

theorem unlock_exists (valid : set.Valid) (ordered : range.start ≤ range.stop)
    (bounded : range.stop ≤ 2 ^ 64 - 1) :
    ∃ released, set.unlock uid range = some released ∧ released.Valid ∧
      ∀ key, released.holdersAt key =
        if range.Contains key then (set.holdersAt key).drop uid else set.holdersAt key := by
  simp only [unlock]
  rw [if_neg (by omega)]
  by_cases empty : range.length = 0
  · rw [if_pos empty]
    refine ⟨set, rfl, valid, fun key => ?_⟩
    rw [if_neg (not_contains empty)]
  rw [if_neg empty]
  obtain ⟨before, rest, sought, rfl, fitsBefore, ends⟩ := Cursor.seek_spec range.start valid
  rw [sought]
  obtain ⟨position, fitsFirst, fitsRest⟩ := Data.fits_append.mp valid
  have few := @List.countP_le_length _
    (fun segment : Segment (Lock Owner) => decide (segment.start < range.stop)) rest
  have released : Released (before.reverse ++ rest) uid range ⟨before, rest⟩
      (min position range.start) := by
    refine ⟨?_, fitsRest.widen (by omega) (Nat.le_refl _), fun key => ?_⟩
    · rw [Nat.min_def]
      split
      · exact fitsFirst
      · exact fitsBefore
    · have := Nat.min_le_right position range.start
      rw [if_neg fun both => by have := both.1.1; omega]
      rfl
  have nonempty : range.start < range.stop := by
    simp only [Range.length] at empty
    omega
  apply unlockLoop_exists nonempty bounded released ends
  simp only [List.length_append]
  omega

end LockSet

structure LockRange extends Range where
  ordered : start ≤ stop
  bounded : stop ≤ 2 ^ 64 - 1

inductive Call (Owner : Type) where
  | lockRegion (uid : Owner) (info : OwnerInfo) (type : LockType) (range : LockRange)
  | unlockRegion (uid : Owner) (range : LockRange)

def apply (set : LockSet Owner) : Call Owner → Option (LockSet Owner)
  | .lockRegion uid info type range => (set.lock uid info type range.toRange).map Prod.snd
  | .unlockRegion uid range => set.unlock uid range.toRange

namespace LockSet

variable {set : LockSet Owner}

structure Attempt (set : LockSet Owner) (uid : Owner) (info : OwnerInfo) (type : LockType)
    (range : Range) : Prop where
  granted : (∀ offset, range.Contains offset → (set.holdersAt offset).Allows uid type) →
    ∃ taken, set.lock uid info type range = some (true, taken) ∧ taken.Valid ∧
      (∀ offset, ¬ range.Contains offset → taken.holdersAt offset = set.holdersAt offset) ∧
      ((∀ offset, range.Contains offset →
          taken.holdersAt offset = (set.holdersAt offset).grant uid type) ↔
        ¬ ∃ segment, Island set uid type range segment)
  refused : (¬ ∀ offset, range.Contains offset → (set.holdersAt offset).Allows uid type) →
    set.lock uid info type range = some (false, set)

theorem Taken.granted_iff {uid : Owner} {type : LockType} {range : Range} {taken : LockSet Owner}
    (done : Taken set uid type range taken) :
    (∀ offset, range.Contains offset →
        taken.holdersAt offset = (set.holdersAt offset).grant uid type) ↔
      ¬ ∃ segment, Island set uid type range segment := by
  constructor
  · intro granted island
    obtain ⟨segment, isIsland⟩ := island
    obtain ⟨key, contained, missed⟩ := done.skipped segment isIsland
    have free := granted key contained
    rw [holdersAt_none missed] at free
    exact grant_ne_free _ uid type free.symm
  · intro noIsland offset contained
    obtain granted | ⟨_, _, island⟩ := done.settled offset contained
    · exact holdersAt_some granted
    · exact absurd island noIsland

theorem Valid.locks (valid : set.Valid) (uid : Owner) (info : OwnerInfo) (type : LockType)
    (range : LockRange) : Attempt set uid info type range.toRange := by
  by_cases empty : range.toRange.length = 0
  · have nothing : ∀ offset, ¬ range.toRange.Contains offset := fun _ => not_contains empty
    have ordered := range.ordered
    have done : set.lock uid info type range.toRange = some (true, set) := by
      simp only [lock]
      rw [if_neg (by omega), if_pos empty]
    refine ⟨fun _ => ⟨set, done, valid, fun _ _ => rfl, ?_⟩, fun refuses => ?_⟩
    · refine ⟨fun _ island => ?_, fun _ offset contained => absurd contained (nothing offset)⟩
      obtain ⟨segment, isIsland⟩ := island
      have after := isIsland.after
      have before := isIsland.before
      have bounds := valid.mem isIsland.member
      exact nothing segment.start ⟨by omega, by omega⟩
    · exact absurd (fun offset contained => absurd contained (nothing offset)) refuses
  · have nonempty : range.start < range.stop := by
      simp only [Range.length] at empty
      omega
    refine ⟨fun allows => ?_, lock_refused valid nonempty⟩
    obtain ⟨taken, locked, done⟩ := @lock_taken _ _ set uid info type range.toRange valid nonempty
      range.bounded allows
    refine ⟨taken, locked, done.valid, fun offset outside => ?_, done.granted_iff⟩
    rw [holdersAt, done.unchanged offset outside, holdersAt]

theorem Valid.apply (valid : set.Valid) (call : Call Owner) :
    ∃ next, FileLock.apply set call = some next ∧ next.Valid := by
  cases call with
  | lockRegion uid info type range =>
    have locks := valid.locks uid info type range
    by_cases allows : ∀ offset, range.toRange.Contains offset → (set.holdersAt offset).Allows uid type
    · obtain ⟨taken, locked, takenValid, _⟩ := locks.granted allows
      exact ⟨taken, by rw [FileLock.apply, locked]; rfl, takenValid⟩
    · exact ⟨set, by rw [FileLock.apply, locks.refused allows]; rfl, valid⟩
  | unlockRegion uid range =>
    obtain ⟨released, unlocked, releasedValid, _⟩ :=
      @unlock_exists _ _ set uid range.toRange valid range.ordered range.bounded
    exact ⟨released, unlocked, releasedValid⟩

/-- No request makes the code panic, and every set that requests lead to is valid. -/
theorem Valid.run (valid : set.Valid) (calls : List (Call Owner)) :
    ∃ next, Data.run FileLock.apply set calls = some next ∧ next.Valid := by
  induction calls generalizing set with
  | nil => exact ⟨set, rfl, valid⟩
  | cons call rest ih =>
    obtain ⟨next, applied, nextValid⟩ := valid.apply call
    rw [Data.run_cons applied]
    exact ih nextValid

omit [DecidableEq Owner] in
theorem valid_nil : Valid ([] : LockSet Owner) :=
  Nat.zero_le _

end LockSet

/-- After any requests: no offset has a writer and a reader; a request to lock a region is granted
if and only if every offset allows it, and then changes the offsets of its region, all of them
unless there is an island; a release takes its owner out of the offsets of its region. -/
theorem requests_act_pointwise (calls : List (Call Owner)) :
    ∃ set, run apply [] calls = some set ∧
      (∀ offset, (set.holdersAt offset).Exclusive) ∧
      (∀ uid info type (range : LockRange), set.Attempt uid info type range.toRange) ∧
      ∀ uid (range : LockRange), ∃ released, set.unlock uid range.toRange = some released ∧
        ∀ offset, released.holdersAt offset =
          if range.Contains offset then (set.holdersAt offset).drop uid
          else set.holdersAt offset := by
  obtain ⟨set, ran, valid⟩ := LockSet.valid_nil.run calls
  refine ⟨set, ran, valid.exclusive, valid.locks, fun uid range => ?_⟩
  obtain ⟨released, unlocked, _, holders⟩ :=
    @LockSet.unlock_exists _ _ set uid range.toRange valid range.ordered range.bounded
  exact ⟨released, unlocked, holders⟩

/-- The owner of `[10, 20)` asks for `[0, 30)` and is told that it has it, but does not hold
offset 25. -/
theorem wider_lock_misses_gap :
    ∃ set taken : LockSet Nat,
      run apply [] [.lockRegion 1 ⟨1, false⟩ .write ⟨⟨10, 20⟩, by decide, by decide⟩] = some set ∧
      set.lock 1 ⟨1, false⟩ .write ⟨0, 30⟩ = some (true, taken) ∧
      taken.holdersAt 25 = .free ∧ taken.lock 2 ⟨2, false⟩ .write ⟨25, 26⟩ ≠ some (false, taken) :=
  ⟨_, _, rfl, rfl, rfl, by decide⟩

end BVisor.FileLock
