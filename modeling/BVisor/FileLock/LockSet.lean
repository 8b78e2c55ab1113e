import BVisor.Data.Segments

/-! Advisory file locks: the lock of one segment of a file, and the set of all locks of a file. -/

namespace BVisor.FileLock

open Data (Range Segment SegmentFunctions Cursor)

inductive LockType where
  | read | write
deriving DecidableEq

structure OwnerInfo where
  pid : Int
  ofd : Bool
deriving DecidableEq

/-- A writer, or the readers with what is known of each of them. -/
structure Lock (Owner : Type) where
  readers : List (Owner × OwnerInfo)
  writer : Option Owner
  writerInfo : OwnerInfo
deriving DecidableEq

variable {Owner : Type} [DecidableEq Owner]

def makeLock (uid : Owner) (info : OwnerInfo) : LockType → Lock Owner
  | .read => ⟨[(uid, info)], none, ⟨0, false⟩⟩
  | .write => ⟨[], some uid, info⟩

namespace Lock

def isReader (lock : Lock Owner) (uid : Owner) : Bool :=
  lock.readers.any fun reader => reader.1 = uid

def isHeld (lock : Lock Owner) (uid : Owner) : Bool :=
  lock.isReader uid || lock.writer = some uid

def isOnlyReader (lock : Lock Owner) (uid : Owner) : Bool :=
  lock.readers.length = 1 && lock.isReader uid

/-- Makes `uid` a holder; `none` where the code panics. -/
def lock (held : Lock Owner) (uid : Owner) (info : OwnerInfo) : LockType → Option (Lock Owner)
  | .read =>
    if held.isReader uid then some held
    else
      match held.writer with
      | none => some { held with readers := held.readers ++ [(uid, info)] }
      | some writer =>
        if writer = uid then some { held with readers := [(uid, info)], writer := none }
        else none
  | .write =>
    if held.writer = some uid then some held
    else if held.readers.length > 0 && !held.isOnlyReader uid then none
    else some ⟨[], some uid, info⟩

def withoutReader (lock : Lock Owner) (uid : Owner) : Lock Owner :=
  ⟨lock.readers.filter fun reader => reader.1 ≠ uid, none, ⟨0, false⟩⟩

end Lock

def lockSetFunctions : SegmentFunctions (Lock Owner) where
  maxKey := 2 ^ 64 - 1
  merge _ first _ second :=
    if first.readers.length ≠ second.readers.length then none
    else if !first.readers.all fun reader => second.isReader reader.1 then none
    else if first.writer ≠ second.writer then none
    else some first
  split _ lock _ := (lock, lock)

abbrev LockSet (Owner : Type) :=
  List (Segment (Lock Owner))

namespace LockSet

def lockable (stop : Nat) (check : Lock Owner → Bool) : List (Segment (Lock Owner)) → Bool
  | [] => true
  | segment :: rest =>
    if segment.start < stop then
      if check segment.value then lockable stop check rest else false
    else true

/-- May `uid` take a lock of this type over the held one? -/
def compatible (uid : Owner) (type : LockType) (held : Lock Owner) : Bool :=
  match type, held.writer with
  | .read, none => true
  | .write, none => held.isOnlyReader uid
  | _, some writer => writer = uid

def canLock (set : LockSet Owner) (uid : Owner) (type : LockType) (range : Range) : Bool :=
  lockable range.stop (compatible uid type) (Cursor.seek range.start [] set).rest

/-- From the gap after a segment to the next segment to lock. -/
def fillGap (uid : Owner) (info : OwnerInfo) (type : LockType) (range : Range)
    (cursor : Cursor (Lock Owner)) : Option (Cursor (Lock Owner)) :=
  let gap := (cursor.gap lockSetFunctions).intersect range
  if gap.length > 0 then
    (cursor.insert lockSetFunctions gap (makeLock uid info type)).map Cursor.advance
  else some cursor

/-- The first segment to lock: `Find`, then an insertion or a split. -/
def lockStart (set : LockSet Owner) (uid : Owner) (info : OwnerInfo) (type : LockType)
    (range : Range) : Option (Cursor (Lock Owner)) :=
  let cursor := Cursor.seek range.start [] set
  if cursor.rest.head?.any fun segment => segment.start ≤ range.start then
    if cursor.rest.head?.any fun segment => segment.start < range.start then
      (cursor.split lockSetFunctions range.start).map Cursor.advance
    else some cursor
  else
    let gap := (cursor.gap lockSetFunctions).intersect range
    (cursor.insert lockSetFunctions gap (makeLock uid info type)).map Cursor.advance

/-- Locks the segment at the cursor and goes on to the next one. -/
def lockSegment (uid : Owner) (info : OwnerInfo) (type : LockType) (range : Range)
    (cursor : Cursor (Lock Owner)) : Option (Cursor (Lock Owner)) :=
  match cursor.rest with
  | [] => some cursor
  | segment :: rest =>
    match segment.value.lock uid info type with
    | none => none
    | some value =>
      fillGap uid info type range ⟨{ segment with value := value } :: cursor.before, rest⟩

def splitLast (stop : Nat) (cursor : Cursor (Lock Owner)) : Cursor (Lock Owner) :=
  if cursor.rest.head?.any fun segment => segment.stop > stop then
    cursor.splitUnchecked lockSetFunctions stop
  else cursor

def lockLoop (uid : Owner) (info : OwnerInfo) (type : LockType) (range : Range) :
    Nat → Cursor (Lock Owner) → Option (LockSet Owner)
  | 0, _ => none
  | fuel + 1, cursor =>
    if cursor.rest.head?.any fun segment => segment.start < range.stop then
      (lockSegment uid info type range (splitLast range.stop cursor)).bind (lockLoop uid info type range fuel)
    else some cursor.contents

/-- Whether the lock was taken, or the request would block; `none` where the code panics. -/
def lock (set : LockSet Owner) (uid : Owner) (info : OwnerInfo) (type : LockType)
    (range : Range) : Option (Bool × LockSet Owner) :=
  if range.start > range.stop then none
  else if range.length = 0 then some (true, set)
  else if !set.canLock uid type range then some (false, set)
  else
    ((lockStart set uid info type range).bind (lockLoop uid info type range (set.length + 2))).map (true, ·)

def releaseSegment (uid : Owner) (cursor : Cursor (Lock Owner)) : Cursor (Lock Owner) :=
  match cursor.rest with
  | [] => cursor
  | segment :: rest =>
    if segment.value.writer = some uid then ⟨cursor.before, rest⟩
    else if segment.value.isReader uid then
      if segment.value.readers.length = 1 then ⟨cursor.before, rest⟩
      else ⟨{ segment with value := segment.value.withoutReader uid } :: cursor.before, rest⟩
    else ⟨segment :: cursor.before, rest⟩

def unlockLoop (uid : Owner) (range : Range) :
    Nat → Cursor (Lock Owner) → Option (LockSet Owner)
  | 0, _ => none
  | fuel + 1, cursor =>
    if cursor.rest.head?.any fun segment => segment.start < range.stop then
      if cursor.rest.head?.any fun segment => segment.value.isHeld uid then
        unlockLoop uid range fuel (releaseSegment uid (cursor.isolate lockSetFunctions range))
      else unlockLoop uid range fuel cursor.advance
    else some cursor.contents

def unlock (set : LockSet Owner) (uid : Owner) (range : Range) : Option (LockSet Owner) :=
  if range.start > range.stop then none
  else if range.length = 0 then some set
  else unlockLoop uid range (set.length + 1) (Cursor.seek range.start [] set)

end LockSet

end BVisor.FileLock
