import BVisor.FileLock.LockSet

/-! Who holds an offset of a file, and what one request does to the holders of one offset. -/

namespace BVisor.FileLock

open List

open Data (Range Segment SegmentFunctions Cursor Fits lookup Lawful)

@[ext]
structure Holders (Owner : Type) where
  writer : Option Owner
  reads : Owner → Bool

variable {Owner : Type} [DecidableEq Owner]

open Holders

namespace Holders

def free : Holders Owner :=
  ⟨none, fun _ => false⟩

def drop (holders : Holders Owner) (uid : Owner) : Holders Owner where
  writer := if holders.writer = some uid then none else holders.writer
  reads owner := owner ≠ uid && holders.reads owner

/-- `uid` holds the offset with this type in place of its old type; the others stay. -/
def grant (holders : Holders Owner) (uid : Owner) : LockType → Holders Owner
  | .read => { holders.drop uid with
      reads := fun owner => owner = uid || (holders.drop uid).reads owner }
  | .write => { holders.drop uid with writer := some uid }

/-- No other owner has a write lock and, for a write lock, none has a read lock. -/
def Allows (holders : Holders Owner) (uid : Owner) (type : LockType) : Prop :=
  (∀ owner, holders.writer = some owner → owner = uid) ∧
    (type = .write → ∀ owner, holders.reads owner = true → owner = uid)

def Exclusive (holders : Holders Owner) : Prop :=
  ∀ writer, holders.writer = some writer → ∀ owner, holders.reads owner = false

omit [DecidableEq Owner] in
theorem allows_free (uid : Owner) (type : LockType) : (free : Holders Owner).Allows uid type :=
  ⟨fun _ held => (nomatch held), fun _ _ held => (nomatch held)⟩

theorem drop_free (uid : Owner) : (free : Holders Owner).drop uid = free := by
  simp [drop, free]

theorem grant_ne_free (holders : Holders Owner) (uid : Owner) (type : LockType) :
    holders.grant uid type ≠ free := by
  intro same
  cases type with
  | read =>
    have reads := congrFun (congrArg reads same) uid
    simp [grant, free] at reads
  | write =>
    have writer := congrArg writer same
    simp [grant, free] at writer

theorem grant_grant_free (uid : Owner) (type : LockType) :
    ((free : Holders Owner).grant uid type).grant uid type = free.grant uid type := by
  cases type with
  | read =>
    ext owner
    · simp [grant, drop, free]
    · by_cases own : owner = uid <;> simp [grant, drop, free, own]
  | write =>
    ext owner
    · simp [grant, drop, free]
    · simp [grant, drop, free]

end Holders

namespace Lock

/-- One writer and no reader, or at least one reader and no writer. -/
structure Sound (lock : Lock Owner) : Prop where
  distinct : (lock.readers.map Prod.fst).Nodup
  exclusive : ∀ writer, lock.writer = some writer → lock.readers = []
  held : lock.writer = none → lock.readers ≠ []

def holders (lock : Lock Owner) : Holders Owner :=
  ⟨lock.writer, lock.isReader⟩

variable {lock first second : Lock Owner} {uid : Owner} {info : OwnerInfo} {type : LockType}

theorem isReader_iff : lock.isReader uid = true ↔ uid ∈ lock.readers.map Prod.fst := by
  simp [isReader]

theorem Sound.exclusive_holders (sound : lock.Sound) : lock.holders.Exclusive := by
  intro writer writes owner
  simp only [holders, isReader, sound.exclusive writer writes, any_nil]

omit [DecidableEq Owner] in
theorem makeLock_sound : (makeLock uid info type).Sound := by
  cases type with
  | read => exact ⟨by simp [makeLock], fun _ writes => (nomatch writes), fun _ => by simp [makeLock]⟩
  | write => exact ⟨nodup_nil, fun _ _ => rfl, fun unwritten => (nomatch unwritten)⟩

theorem makeLock_holders : (makeLock uid info type).holders = free.grant uid type := by
  cases type with
  | read =>
    ext owner
    · simp [makeLock, holders, Holders.grant, Holders.drop, Holders.free]
    · simp [makeLock, holders, isReader, Holders.grant, Holders.drop, Holders.free, eq_comm]
  | write =>
    ext owner
    · simp [makeLock, holders, Holders.grant, Holders.drop, Holders.free]
    · simp [makeLock, holders, isReader, Holders.grant, Holders.drop, Holders.free]

section

variable (sound : lock.Sound)
include sound

theorem isOnlyReader_iff (unwritten : lock.writer = none) :
    lock.isOnlyReader uid = true ↔ ∀ owner, lock.isReader owner = true → owner = uid := by
  obtain ⟨⟨reader, about⟩, rest, readers⟩ := exists_cons_of_ne_nil (sound.held unwritten)
  have distinct := sound.distinct
  rw [readers] at distinct
  simp only [isOnlyReader, isReader, readers]
  constructor
  · intro only owner reads
    cases rest with
    | nil => simp_all
    | cons next rest => simp at only
  · intro only
    have readerOnly : reader = uid := only reader (by simp)
    cases rest with
    | nil => simp [readerOnly]
    | cons next rest =>
      have nextOnly : next.1 = uid := only next.1 (by simp)
      simp [readerOnly, nextOnly] at distinct

theorem compatible_iff : LockSet.compatible uid type lock = true ↔ lock.holders.Allows uid type := by
  cases writes : lock.writer with
  | none =>
    cases type with
    | read => simp [LockSet.compatible, writes, Holders.Allows, holders]
    | write =>
      simp only [LockSet.compatible, writes, Holders.Allows, holders, isOnlyReader_iff sound writes]
      simp
  | some writer =>
    have unread := sound.exclusive_holders writer writes
    have reads : ∀ owner, lock.isReader owner = false := unread
    simp [LockSet.compatible, writes, Holders.Allows, holders, reads]

theorem lock_read_exists (allows : lock.holders.Allows uid .read) :
    ∃ taken, lock.lock uid info .read = some taken ∧ taken.Sound ∧
      taken.holders = lock.holders.grant uid .read := by
  simp only [Lock.lock]
  by_cases reads : lock.isReader uid = true
  · have unwritten : lock.writer = none := by
      cases writes : lock.writer with
      | none => rfl
      | some writer =>
        have unread := sound.exclusive_holders writer writes uid
        exact absurd reads (by simp only [holders] at unread; simp [unread])
    refine ⟨lock, if_pos reads, sound, ?_⟩
    ext owner
    · simp [holders, Holders.grant, Holders.drop, unwritten]
    · by_cases own : owner = uid <;> simp [holders, Holders.grant, Holders.drop, own, reads]
  rw [if_neg reads]
  cases writes : lock.writer with
  | none =>
    refine ⟨_, rfl, ⟨?_, fun _ written => (by cases written), fun _ => by simp⟩, ?_⟩
    · rw [map_append, nodup_append]
      refine ⟨sound.distinct, by simp, fun owner member other single => ?_⟩
      rw [mem_singleton.mp single]
      intro same
      rw [show owner = uid from same] at member
      exact reads (isReader_iff.mpr member)
    · ext owner
      · simp [holders, Holders.grant, Holders.drop, writes]
      · by_cases own : owner = uid
        · simp [holders, isReader, Holders.grant, Holders.drop, own]
        · simp [holders, isReader, Holders.grant, Holders.drop, own, Ne.symm own]
  | some writer =>
    have own : writer = uid := allows.1 writer writes
    refine ⟨_, if_pos own, ⟨by simp, fun _ written => (by cases written), fun _ => by simp⟩, ?_⟩
    have unread := sound.exclusive_holders writer writes
    ext owner
    · simp [holders, Holders.grant, Holders.drop, writes, own]
    · simp [holders, isReader, Holders.grant, Holders.drop, sound.exclusive writer writes, eq_comm]

theorem lock_write_exists (allows : lock.holders.Allows uid .write) :
    ∃ taken, lock.lock uid info .write = some taken ∧ taken.Sound ∧
      taken.holders = lock.holders.grant uid .write := by
  simp only [Lock.lock]
  by_cases writes : lock.writer = some uid
  · refine ⟨lock, if_pos writes, sound, ?_⟩
    ext owner
    · simp [holders, grant, writes]
    · simp [holders, isReader, Holders.grant, Holders.drop, sound.exclusive uid writes]
  have unwritten : lock.writer = none := by
    cases writer : lock.writer with
    | none => rfl
    | some owner => exact absurd (allows.1 owner writer ▸ writer) writes
  have only := (isOnlyReader_iff sound unwritten).mpr (allows.2 rfl)
  rw [if_neg writes, if_neg (by simp [only])]
  refine ⟨_, rfl, @makeLock_sound _ uid info .write, ?_⟩
  ext owner
  · simp [holders, grant]
  · by_cases own : owner = uid
    · simp [holders, isReader, Holders.grant, Holders.drop, own]
    · have unread : lock.isReader owner = false :=
        Bool.eq_false_iff.mpr fun reads => own (allows.2 rfl owner reads)
      simpa [holders, isReader, Holders.grant, Holders.drop, own] using unread

theorem lock_exists (allows : lock.holders.Allows uid type) :
    ∃ taken, lock.lock uid info type = some taken ∧ taken.Sound ∧
      taken.holders = lock.holders.grant uid type := by
  cases type with
  | read => exact lock_read_exists sound allows
  | write => exact lock_write_exists sound allows

theorem withoutReader_sound (unwritten : lock.writer = none)
    (others : lock.readers.length ≠ 1) : (lock.withoutReader uid).Sound := by
  refine ⟨?_, fun _ written => (nomatch written), fun _ empty => ?_⟩
  · exact sound.distinct.sublist (filter_sublist.map Prod.fst)
  · have only := (@isOnlyReader_iff _ _ lock uid sound unwritten).mpr fun owner reads => by
      obtain ⟨reader, member, rfl⟩ := mem_map.mp (isReader_iff.mp reads)
      have := filter_eq_nil_iff.mp empty reader member
      simpa using this
    simp [isOnlyReader, others] at only

end

theorem withoutReader_holders (unwritten : lock.writer = none) :
    (lock.withoutReader uid).holders = lock.holders.drop uid := by
  ext owner
  · simp [withoutReader, holders, Holders.drop, unwritten]
  · simp only [withoutReader, holders, isReader, Holders.drop, any_filter]
    rw [Bool.eq_iff_iff]
    simp only [any_eq_true, Bool.and_eq_true, decide_eq_true_eq]
    grind

theorem readers_perm (firstSound : first.Sound) (secondSound : second.Sound)
    (same : first.holders = second.holders) :
    (first.readers.map Prod.fst).Perm (second.readers.map Prod.fst) := by
  apply (perm_ext_iff_of_nodup firstSound.distinct secondSound.distinct).mpr
  intro owner
  have reads : first.isReader owner = second.isReader owner := congrFun (congrArg reads same) owner
  rw [← isReader_iff, ← isReader_iff, reads]

theorem isReader_eq (firstSound : first.Sound) (lengths : first.readers.length = second.readers.length)
    (readers : first.readers.all (fun reader => second.isReader reader.1) = true) (owner : Owner) :
    first.isReader owner = second.isReader owner := by
  have subset : first.readers.map Prod.fst ⊆ second.readers.map Prod.fst := by
    intro owner member
    obtain ⟨reader, inFirst, rfl⟩ := mem_map.mp member
    exact isReader_iff.mp (all_eq_true.mp readers reader inFirst)
  have perm := (firstSound.distinct.subperm subset).perm_of_length_le (by simp [lengths])
  rw [Bool.eq_iff_iff, isReader_iff, isReader_iff]
  exact perm.mem_iff

theorem merge_some_iff (firstSound : first.Sound) (secondSound : second.Sound) (left right : Range) :
    lockSetFunctions.merge left first right second = some first ↔
      first.holders = second.holders := by
  simp only [lockSetFunctions]
  constructor
  · intro merged
    split at merged
    · cases merged
    split at merged
    · cases merged
    split at merged
    · cases merged
    next lengths readers writers =>
      ext owner
      · rw [show first.holders.writer = second.holders.writer from not_not.mp writers]
      · exact isReader_eq firstSound (not_not.mp lengths) (by simpa using readers) owner
  · intro same
    have lengths := (readers_perm firstSound secondSound same).length_eq
    simp only [length_map] at lengths
    have readers : first.readers.all (fun reader => second.isReader reader.1) = true := by
      apply all_eq_true.mpr
      intro reader member
      rw [isReader_iff]
      exact (readers_perm firstSound secondSound same).mem_iff.mp (mem_map_of_mem member)
    have writers : first.writer = second.writer := congrArg Holders.writer same
    rw [if_neg (by simp [lengths]), if_neg (by simp [readers]), if_neg (by simp [writers])]

theorem merge_some {merged : Lock Owner} {left right : Range}
    (done : lockSetFunctions.merge left first right second = some merged) : merged = first := by
  simp only [lockSetFunctions] at done
  split at done
  · cases done
  split at done
  · cases done
  split at done
  · cases done
  · exact (Option.some.inj done).symm

end Lock

theorem lockSetFunctions_lawful :
    Lawful (lockSetFunctions : SegmentFunctions (Lock Owner)) Lock.Sound (fun _ lock _ => lock.holders) where
  merge_good _ _ _ _ _ merged sound _ := Lock.merge_some merged ▸ sound
  merge_left _ _ _ _ _ _ _ _ merged _ _ := by rw [Lock.merge_some merged]
  merge_right _ _ _ _ _ _ sound otherSound merged _ _ _ := by
    have same := Lock.merge_some merged
    rw [same] at merged ⊢
    exact (Lock.merge_some_iff sound otherSound _ _).mp merged
  split_good _ _ _ sound := ⟨sound, sound⟩
  split_left _ _ _ _ _ _ _ := rfl
  split_right _ _ _ _ _ _ _ := rfl

namespace LockSet

variable {set : LockSet Owner} {uid : Owner} {type : LockType} {range : Range} {key : Nat}

/-- The segments ascend below the largest offset, each with a sound lock. -/
def Valid (set : LockSet Owner) : Prop :=
  Fits Lock.Sound 0 set (2 ^ 64 - 1)

def held (set : LockSet Owner) (offset : Nat) : Option (Holders Owner) :=
  lookup (fun _ lock _ => lock.holders) set offset

def holdersAt (set : LockSet Owner) (offset : Nat) : Holders Owner :=
  (set.held offset).getD .free

theorem holdersAt_none (unheld : set.held key = none) : set.holdersAt key = .free := by
  rw [holdersAt, unheld, Option.getD_none]

theorem holdersAt_some {holders : Holders Owner} (held : set.held key = some holders) :
    set.holdersAt key = holders := by
  rw [holdersAt, held, Option.getD_some]

theorem Valid.exclusive (valid : set.Valid) (key : Nat) : (set.holdersAt key).Exclusive := by
  cases looked : set.held key with
  | none =>
    rw [holdersAt_none looked]
    exact fun _ written => (nomatch written)
  | some holders =>
    obtain ⟨segment, member, _, rfl⟩ := Data.lookup_some looked
    rw [holdersAt_some looked]
    exact (valid.mem member).2.2.2.exclusive_holders

omit [DecidableEq Owner] in
theorem lockable_iff {stop lo hi : Nat} {check : Lock Owner → Bool}
    {segments : List (Segment (Lock Owner))} (fits : Fits Lock.Sound lo segments hi) :
    lockable stop check segments = true ↔
      ∀ segment ∈ segments, segment.start < stop → check segment.value = true := by
  induction segments generalizing lo with
  | nil => exact ⟨fun _ _ member => (nomatch member), fun _ => rfl⟩
  | cons head rest ih =>
    obtain ⟨_, nonempty, _, fitsRest⟩ := fits
    simp only [lockable, forall_mem_cons]
    by_cases early : head.start < stop
    · rw [if_pos early]
      by_cases checked : check head.value = true
      · rw [if_pos checked, ih fitsRest]
        exact ⟨fun others => ⟨fun _ => checked, others⟩, fun both => both.2⟩
      · rw [if_neg checked]
        exact ⟨fun impossible => (nomatch impossible), fun both => absurd (both.1 early) checked⟩
    · rw [if_neg early]
      refine ⟨fun _ => ⟨fun before => absurd before early, fun other member before => ?_⟩, fun _ => rfl⟩
      -- what follows a segment that starts at `stop` or above starts there too
      have := fitsRest.mem member
      omega

theorem canLock_iff (valid : set.Valid) (nonempty : range.start < range.stop) :
    set.canLock uid type range = true ↔
      ∀ key, range.Contains key → (set.holdersAt key).Allows uid type := by
  obtain ⟨before, rest, sought, rfl, fitsBefore, ends⟩ := Cursor.seek_spec range.start valid
  obtain ⟨middle, _, fitsRest⟩ := Data.fits_append.mp valid
  rw [canLock, sought, lockable_iff fitsRest]
  constructor
  · intro checked key inside
    cases looked : held (before.reverse ++ rest) key with
    | none =>
      rw [holdersAt_none looked]
      exact allows_free uid type
    | some holders =>
      obtain ⟨segment, member, covers, rfl⟩ := Data.lookup_some looked
      rw [holdersAt_some looked]
      cases mem_append.mp member with
      | inl early =>
        have := fitsBefore.mem early
        have := covers.2
        have := inside.1
        omega
      | inr member =>
        have early := Nat.lt_of_le_of_lt covers.1 inside.2
        have sound := (fitsRest.mem member).2.2.2
        exact (Lock.compatible_iff sound).mp (checked segment member early)
  · intro allows segment member early
    have late := ends segment member
    have bounds := fitsRest.mem member
    have covers : segment.Contains (max segment.start range.start) := by
      simp only [Range.Contains]
      omega
    have allowed := allows (max segment.start range.start) ⟨by omega, by omega⟩
    rw [holdersAt_some (valid.lookup_mem (mem_append_right _ member) covers)] at allowed
    exact (Lock.compatible_iff bounds.2.2.2).mpr allowed

end LockSet

end BVisor.FileLock
