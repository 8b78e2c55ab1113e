import BVisor.FileLock.Pointwise

/-! `F_GETLK`: the lock that stands in the way of a request, against what the request would do. -/

namespace BVisor.FileLock

open List

open Data (Range Segment Cursor run)

variable {Owner : Type}

def int64 (value : Nat) : Int :=
  if value < 2 ^ 63 then value else (value : Int) - 2 ^ 64

/-- No type is `F_UNLCK`. -/
structure Flock where
  type : Option LockType
  pid : Int
  start : Int
  len : Int
deriving DecidableEq

def firstConflict (stop : Nat) (check : Lock Owner → Option (LockType × Int)) :
    List (Segment (Lock Owner)) → Flock
  | [] => ⟨none, 0, 0, 0⟩
  | segment :: rest =>
    if segment.start < stop then
      match check segment.value with
      | some (type, pid) => ⟨some type, pid, int64 segment.start, int64 segment.length⟩
      | none => firstConflict stop check rest
    else ⟨none, 0, 0, 0⟩

theorem firstConflict_spec {stop : Nat} {check : Lock Owner → Option (LockType × Int)}
    {segments : List (Segment (Lock Owner))} :
    ((firstConflict stop check segments).type = none ∧
      LockSet.lockable stop (fun held => (check held).isNone) segments = true) ∨
    (LockSet.lockable stop (fun held => (check held).isNone) segments = false ∧
      ∃ segment ∈ segments, segment.start < stop ∧ ∃ type pid,
        check segment.value = some (type, pid) ∧ firstConflict stop check segments =
          ⟨some type, pid, int64 segment.start, int64 segment.length⟩) := by
  induction segments with
  | nil => exact .inl ⟨rfl, rfl⟩
  | cons head rest ih =>
    unfold firstConflict LockSet.lockable
    by_cases early : head.start < stop
    · rw [if_pos early, if_pos early]
      cases checked : check head.value with
      | none =>
        rcases ih with free | ⟨refused, segment, member, found⟩
        · exact .inl free
        · exact .inr ⟨refused, segment, mem_cons_of_mem _ member, found⟩
      | some met => exact .inr ⟨rfl, head, mem_cons_self, early, met.1, met.2, checked, rfl⟩
    · rw [if_neg early, if_neg early]
      exact .inl ⟨rfl, rfl⟩

variable [DecidableEq Owner]

/-- The type and owner of the held lock that a request meets. The readers are in a map, which the
code goes over in an order of its own. -/
def conflict (order : List (Owner × OwnerInfo) → List (Owner × OwnerInfo)) (uid : Owner)
    (type : LockType) (ofd : Bool) (held : Lock Owner) : Option (LockType × Int) :=
  match type, held.writer with
  | .read, none => none
  | .write, none =>
    ((order held.readers).find? fun reader => reader.1 ≠ uid && reader.2.ofd = ofd).map
      fun reader => (.read, reader.2.pid)
  | _, some writer => if writer = uid then none else some (.write, held.writerInfo.pid)

def LockSet.testRegion (order : List (Owner × OwnerInfo) → List (Owner × OwnerInfo))
    (set : LockSet Owner) (uid : Owner) (type : LockType) (range : Range) (ofd : Bool) : Flock :=
  firstConflict range.stop (conflict order uid type ofd) (Cursor.seek range.start [] set).rest

/-- A held lock that stops the test: another owner writes, or reads with the flag of a request
to write. -/
def Noticed (uid : Owner) (type : LockType) (ofd : Bool) (held : Lock Owner) : Prop :=
  (∃ writer ≠ uid, held.writer = some writer) ∨
    type = .write ∧ ∃ reader ∈ held.readers, reader.1 ≠ uid ∧ reader.2.ofd = ofd

/-- All other readers have the flag of the request. -/
def Lock.Alike (uid : Owner) (ofd : Bool) (held : Lock Owner) : Prop :=
  ∀ reader ∈ held.readers, reader.1 ≠ uid → reader.2.ofd = ofd

def Overlaps (range : Range) (segment : Segment (Lock Owner)) : Prop :=
  segment.start < range.stop ∧ range.start < segment.stop

section Conflicts

variable {order : List (Owner × OwnerInfo) → List (Owner × OwnerInfo)}
  (isOrder : ∀ readers, (order readers).Perm readers) {uid : Owner} {type : LockType} {ofd : Bool}
  {held : Lock Owner}
include isOrder

theorem conflict_some {heldType : LockType} {pid : Int}
    (met : conflict order uid type ofd held = some (heldType, pid)) :
    (heldType = .write ∧ ∃ writer ≠ uid, held.writer = some writer ∧ pid = held.writerInfo.pid) ∨
    (heldType = .read ∧ type = .write ∧ held.writer = none ∧
      ∃ reader ∈ held.readers, reader.1 ≠ uid ∧ pid = reader.2.pid) := by
  unfold conflict at met
  split at met
  · cases met
  next unwritten =>
    obtain ⟨reader, found, same⟩ := Option.map_eq_some_iff.mp met
    cases same
    have other := List.find?_some found
    simp only [Bool.and_eq_true, decide_eq_true_eq] at other
    have member := (isOrder held.readers).mem_iff.mp (mem_of_find?_eq_some found)
    exact .inr ⟨rfl, rfl, unwritten, reader, member, other.1, rfl⟩
  next writer written =>
    split at met
    · cases met
    next different =>
      cases met
      exact .inl ⟨rfl, writer, different, written, rfl⟩

theorem conflict_none_iff (sound : held.Sound) :
    conflict order uid type ofd held = none ↔ ¬ Noticed uid type ofd held := by
  unfold conflict Noticed
  cases written : held.writer with
  | some writer =>
    have unread := sound.exclusive writer written
    by_cases own : writer = uid <;> cases type <;> simp [own, unread]
  | none =>
    cases type with
    | read => simp
    | write =>
      simp [(isOrder held.readers).mem_iff]

end Conflicts

theorem compatible_iff_noticed {uid : Owner} {type : LockType} {held : Lock Owner}
    (sound : held.Sound) (ofd : Bool) :
    LockSet.compatible uid type held = true ↔
      ¬ Noticed uid type ofd held ∧ (type = .write → held.Alike uid ofd) := by
  unfold LockSet.compatible Noticed Lock.Alike
  cases written : held.writer with
  | some writer =>
    have unread := sound.exclusive writer written
    by_cases own : writer = uid <;> cases type <;> simp [own, unread]
  | none =>
    cases type with
    | read => simp
    | write =>
      rw [Lock.isOnlyReader_iff sound written]
      constructor
      · intro only
        have own (reader : Owner × OwnerInfo) (member : reader ∈ held.readers) : reader.1 = uid :=
          only reader.1 (Lock.isReader_iff.mpr (mem_map_of_mem member))
        refine ⟨?_, fun _ reader member other => absurd (own reader member) other⟩
        rintro (⟨writer, _, writes⟩ | ⟨_, reader, member, other, _⟩)
        · cases writes
        · exact other (own reader member)
      · rintro ⟨unnoticed, alike⟩ owner reads
        obtain ⟨reader, member, rfl⟩ := mem_map.mp (Lock.isReader_iff.mp reads)
        by_contra other
        exact unnoticed (.inr ⟨rfl, reader, member, other, alike rfl reader member other⟩)

/-- What `F_GETLK` reports is a lock of another owner that overlaps the range and is in the way. -/
def Reports (set : LockSet Owner) (uid : Owner) (type : LockType) (range : Range) (report : Flock) : Prop :=
  ∃ segment ∈ set, segment.start < range.stop ∧ range.start < segment.stop ∧
    report.start = int64 segment.start ∧ report.len = int64 segment.length ∧
    ((report.type = some .write ∧ ∃ writer ≠ uid, segment.value.writer = some writer ∧
        report.pid = segment.value.writerInfo.pid) ∨
      (report.type = some .read ∧ type = .write ∧ segment.value.writer = none ∧
        ∃ reader ∈ segment.value.readers, reader.1 ≠ uid ∧ report.pid = reader.2.pid))

namespace LockSet.Valid

variable {set : LockSet Owner} (valid : set.Valid)
include valid

omit [DecidableEq Owner] in
theorem lockable_seek_iff {check : Lock Owner → Bool} (range : Range) :
    lockable range.stop check (Cursor.seek range.start [] set).rest = true ↔
      ∀ segment ∈ set, Overlaps range segment → check segment.value = true := by
  obtain ⟨before, rest, sought, rfl, fitsBefore, ends⟩ := Cursor.seek_spec range.start valid
  obtain ⟨_, _, fitsRest⟩ := Data.fits_append.mp valid
  rw [sought, lockable_iff fitsRest]
  constructor
  · intro checked segment member overlaps
    rcases mem_append.mp member with early | member
    · have := fitsBefore.mem early
      have := overlaps.2
      omega
    · exact checked segment member overlaps.1
  · intro checked segment member early
    exact checked segment (mem_append_right _ member) ⟨early, ends segment member⟩

section Test

variable {order : List (Owner × OwnerInfo) → List (Owner × OwnerInfo)}
  (isOrder : ∀ readers, (order readers).Perm readers) (uid : Owner) (type : LockType)
  (range : LockRange) (ofd : Bool)
include isOrder

theorem testRegion_spec :
    let report := set.testRegion order uid type range.toRange ofd
    (report.type = none ↔
      ∀ segment ∈ set, Overlaps range.toRange segment → ¬ Noticed uid type ofd segment.value) ∧
    (report.type ≠ none → Reports set uid type range.toRange report) := by
  have free := @lockable_seek_iff _ set valid (fun held => (conflict order uid type ofd held).isNone)
    range.toRange
  have unnoticed : (∀ segment ∈ set, Overlaps range.toRange segment →
      (conflict order uid type ofd segment.value).isNone = true) ↔
      ∀ segment ∈ set, Overlaps range.toRange segment → ¬ Noticed uid type ofd segment.value := by
    refine forall₂_congr fun segment member => imp_congr_right fun _ => ?_
    rw [Option.isNone_iff_eq_none, conflict_none_iff isOrder (valid.mem member).2.2.2]
  obtain ⟨before, rest, sought, same, -, ends⟩ := Cursor.seek_spec range.start valid
  rw [unnoticed, sought] at free
  simp only [testRegion, sought, ← free]
  obtain ⟨clear, passed⟩ | ⟨refused, segment, member, early, heldType, heldPid, met, report⟩ :=
    @firstConflict_spec _ range.stop (conflict order uid type ofd) rest
  · exact ⟨iff_of_true clear passed, fun held => absurd clear held⟩
  rw [report, refused]
  refine ⟨by simp, fun _ => ?_⟩
  have inSet : segment ∈ set := same ▸ mem_append_right _ member
  refine ⟨segment, inSet, early, ends segment member, rfl, rfl, ?_⟩
  simpa using conflict_some isOrder met

end Test

theorem lock_granted_iff (uid : Owner) (pid : Int) (type : LockType) (range : LockRange) (ofd : Bool)
    (nonempty : range.start < range.stop) :
    (∃ taken, set.lock uid ⟨pid, ofd⟩ type range.toRange = some (true, taken)) ↔
      ∀ segment ∈ set, Overlaps range.toRange segment →
        ¬ Noticed uid type ofd segment.value ∧ (type = .write → segment.value.Alike uid ofd) := by
  have locks := valid.locks uid ⟨pid, ofd⟩ type range
  have can := @LockSet.canLock_iff _ _ set uid type range.toRange valid nonempty
  have free := @lockable_seek_iff _ set valid (compatible uid type) range.toRange
  have compatible : (∀ segment ∈ set, Overlaps range.toRange segment →
      compatible uid type segment.value = true) ↔
      ∀ segment ∈ set, Overlaps range.toRange segment →
        ¬ Noticed uid type ofd segment.value ∧ (type = .write → segment.value.Alike uid ofd) :=
    forall₂_congr fun segment member => imp_congr_right fun _ =>
      compatible_iff_noticed (valid.mem member).2.2.2 ofd
  rw [← compatible, ← free]
  constructor
  · rintro ⟨taken, locked⟩
    by_contra refused
    have refuses := locks.refused fun allows => refused (can.mpr allows)
    rw [refuses] at locked
    cases locked
  · intro passed
    obtain ⟨taken, locked, -⟩ := locks.granted (can.mp passed)
    exact ⟨taken, locked⟩

end LockSet.Valid

/-- `F_GETLK` reports no lock if and only if the request would be granted, and otherwise reports a
conflict, exactly when a request for a write lock meets no other reader with the other flag, or meets
another lock that is noticed. -/
theorem test_agrees_with_lock (calls : List (Call Owner))
    (order : List (Owner × OwnerInfo) → List (Owner × OwnerInfo))
    (isOrder : ∀ readers, (order readers).Perm readers) :
    ∃ set, run apply [] calls = some set ∧
      ∀ uid pid type ofd (range : LockRange), range.start < range.stop →
        (((set.testRegion order uid type range.toRange ofd).type = none ↔
          ∃ taken, set.lock uid ⟨pid, ofd⟩ type range.toRange = some (true, taken)) ∧
        ((set.testRegion order uid type range.toRange ofd).type ≠ none →
          Reports set uid type range.toRange (set.testRegion order uid type range.toRange ofd)) ↔
        (type = .write → ∀ segment ∈ set, Overlaps range.toRange segment →
          segment.value.Alike uid ofd) ∨
        ∃ segment ∈ set, Overlaps range.toRange segment ∧ Noticed uid type ofd segment.value) := by
  obtain ⟨set, ran, valid⟩ := LockSet.valid_nil.run calls
  refine ⟨set, ran, fun uid pid type ofd range nonempty => ?_⟩
  obtain ⟨free, reports⟩ := valid.testRegion_spec isOrder uid type range ofd
  rw [free, valid.lock_granted_iff uid pid type range ofd nonempty, and_iff_left reports]
  constructor
  · intro same
    by_cases noticed : ∃ segment ∈ set, Overlaps range.toRange segment ∧ Noticed uid type ofd segment.value
    · exact .inr noticed
    · refine .inl fun writes segment member overlaps => ?_
      exact (same.mp (fun segment member overlaps here => noticed ⟨segment, member, overlaps, here⟩)
        segment member overlaps).2 writes
  · rintro (alike | ⟨segment, member, overlaps, noticed⟩)
    · exact ⟨fun unnoticed segment member overlaps => ⟨unnoticed segment member overlaps,
        fun writes => alike writes segment member overlaps⟩,
        fun both segment member overlaps => (both segment member overlaps).1⟩
    · exact iff_of_false (fun unnoticed => unnoticed segment member overlaps noticed)
        fun both => (both segment member overlaps).1 noticed

/-- The reader with the other flag is passed over, but the writer before it is reported. -/
theorem writer_reported :
    ∃ set, run apply [] [.lockRegion 4 ⟨9, false⟩ .write ⟨⟨0, 5⟩, by decide, by decide⟩,
        .lockRegion 1 ⟨7, false⟩ .read ⟨⟨10, 20⟩, by decide, by decide⟩] = some set ∧
      (¬ ∃ taken, set.lock 2 ⟨8, true⟩ .write ⟨0, 30⟩ = some (true, taken)) ∧
      Reports set 2 .write ⟨0, 30⟩ (set.testRegion id 2 .write ⟨0, 30⟩ true) := by
  obtain ⟨set, ran, agreesIff⟩ := test_agrees_with_lock
    [.lockRegion 4 ⟨9, false⟩ .write ⟨⟨0, 5⟩, by decide, by decide⟩,
      .lockRegion 1 ⟨7, false⟩ .read ⟨⟨10, 20⟩, by decide, by decide⟩] id fun _ => .refl _
  refine ⟨set, ran, ?_⟩
  cases ran
  obtain ⟨same, reports⟩ := (agreesIff 2 8 .write true ⟨⟨0, 30⟩, by decide, by decide⟩ (by decide)).mpr
    (.inr ⟨_, .head _, ⟨by decide, by decide⟩, .inl ⟨4, by decide, rfl⟩⟩)
  exact ⟨same.not.mp (by decide), reports (by decide)⟩

/-- A read lock of a process, and a question about an open file description: `F_GETLK` says that
there is no lock, but the request is refused. -/
theorem other_flag_passed_over :
    ∃ set : LockSet Nat,
      run apply [] [.lockRegion 1 ⟨7, false⟩ .read ⟨⟨10, 20⟩, by decide, by decide⟩] = some set ∧
      (set.testRegion id 2 .write ⟨0, 30⟩ true).type = none ∧
      set.lock 2 ⟨8, true⟩ .write ⟨0, 30⟩ = some (false, set) :=
  ⟨_, rfl, rfl, rfl⟩

end BVisor.FileLock
