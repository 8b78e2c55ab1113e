import BVisor.FileLock.Pointwise

/-! Requests that block until they are granted or interrupted.

A request that is refused registers on the queue of the file while it holds the mutex, and sleeps.
A release notifies every registered request.  A request that wakes up, or is interrupted, takes its
entry off the queue without the mutex, then takes the mutex and tries again or returns.
-/

namespace BVisor.FileLock

open List

open Data (Range Segment Cursor Fits run)

variable {Owner : Type} [DecidableEq Owner]

inductive Phase where
  | sleeping | woken | interrupted
deriving DecidableEq

/-- A blocking request; a notification stays in the channel of its entry until it wakes up. -/
structure Waiter (Owner : Type) where
  uid : Owner
  info : OwnerInfo
  type : LockType
  range : LockRange
  registered : Bool
  notified : Bool
  phase : Phase

structure Locks (Owner : Type) where
  locks : LockSet Owner
  waiters : List (Waiter Owner)

inductive LockEvent (Owner : Type) where
  | lockRegion (uid : Owner) (info : OwnerInfo) (type : LockType) (range : LockRange) (block : Bool)
  | unlockRegion (uid : Owner) (range : LockRange)
  | wake (index : Nat)
  | interrupt (index : Nat)
  | eventUnregister (index : Nat)
  | again (index : Nat)

def Waiter.notify (waiter : Waiter Owner) : Waiter Owner :=
  if waiter.registered then { waiter with notified := true } else waiter

def Locks.attempt (l : Locks Owner) (uid : Owner) (info : OwnerInfo) (type : LockType)
    (range : LockRange) (block : Bool) : Option (Locks Owner) :=
  match l.locks.lock uid info type range.toRange with
  | none => none
  | some (true, locks) => some { l with locks := locks }
  | some (false, locks) =>
    if block then
      some ⟨locks, l.waiters ++ [⟨uid, info, type, range, true, false, .sleeping⟩]⟩
    else some { l with locks := locks }

def Locks.step (l : Locks Owner) : LockEvent Owner → Option (Locks Owner)
  | .lockRegion uid info type range block => l.attempt uid info type range block
  | .unlockRegion uid range =>
    (l.locks.unlock uid range.toRange).map fun locks => ⟨locks, l.waiters.map Waiter.notify⟩
  | .wake index =>
    match l.waiters[index]? with
    | none => none
    | some waiter =>
      if waiter.phase = .sleeping ∧ waiter.notified then
        some { l with waiters :=
          l.waiters.set index { waiter with phase := .woken, notified := false } }
      else none
  | .interrupt index =>
    match l.waiters[index]? with
    | none => none
    | some waiter =>
      if waiter.phase = .sleeping then
        some { l with waiters := l.waiters.set index { waiter with phase := .interrupted } }
      else none
  | .eventUnregister index =>
    match l.waiters[index]? with
    | none => none
    | some waiter =>
      if waiter.phase ≠ .sleeping then
        some { l with waiters := l.waiters.set index { waiter with registered := false } }
      else none
  | .again index =>
    match l.waiters[index]? with
    | none => none
    | some waiter =>
      if waiter.registered then none
      else
        match waiter.phase with
        | .sleeping => none
        | .interrupted => some { l with waiters := l.waiters.eraseIdx index }
        | .woken =>
          { l with waiters := l.waiters.eraseIdx index }.attempt
            waiter.uid waiter.info waiter.type waiter.range true

/-- A request that sleeps with no notification although the set would grant it. -/
def Waiter.Forgotten (waiter : Waiter Owner) (locks : LockSet Owner) : Prop :=
  waiter.phase = .sleeping ∧ waiter.notified = false ∧
    locks.canLock waiter.uid waiter.type waiter.range.toRange = true

/-- A read lock is asked for where the owner has a write lock. -/
def LockSet.downgrades (set : LockSet Owner) (uid : Owner) (type : LockType) (range : Range) : Bool :=
  type = .read && set.any fun segment =>
    segment.start < range.stop && range.start < segment.stop && segment.value.writer = some uid

/-- The step does not ask for a read lock in place of a write lock. -/
def Locks.upholds (l : Locks Owner) : LockEvent Owner → Bool
  | .lockRegion uid _ type range _ => !l.locks.downgrades uid type range.toRange
  | .again index =>
    !l.waiters[index]?.any fun waiter =>
      l.locks.downgrades waiter.uid waiter.type waiter.range.toRange
  | _ => true

def Locks.upholdingStep (l : Locks Owner) (event : LockEvent Owner) : Option (Locks Owner) :=
  if l.upholds event then l.step event else none

namespace Holders

variable {holders : Holders Owner} {uid other : Owner} {type wanted : LockType}

/-- A request that is granted, and does not give up a write lock, stands in the way of all that
was refused before. -/
theorem grant_refuses (allows : holders.Allows uid type) (keeps : type = .read → holders.writer ≠ some uid)
    (refuses : ¬ holders.Allows other wanted) : ¬ (holders.grant uid type).Allows other wanted := by
  intro allowsAfter
  apply refuses
  cases type with
  | read =>
    have unwritten : holders.writer = none := by
      cases writes : holders.writer with
      | none => rfl
      | some writer => exact absurd (allows.1 writer writes ▸ writes) (keeps rfl)
    refine ⟨fun writer writes => ?_, fun write owner reads => ?_⟩
    · rw [unwritten] at writes
      cases writes
    · apply allowsAfter.2 write owner
      by_cases own : owner = uid
      · simp [grant, own]
      · simp [grant, drop, own, reads]
  | write =>
    have own : uid = other := allowsAfter.1 uid rfl
    exact own ▸ ⟨allows.1, fun _ => allows.2 rfl⟩

end Holders

namespace LockSet

variable {set : LockSet Owner} {uid : Owner} {type : LockType} {range : Range} {key : Nat}

theorem not_downgrades (upholds : set.downgrades uid type range = false)
    (reads : type = .read) (inside : range.Contains key) :
    (set.holdersAt key).writer ≠ some uid := by
  intro writes
  cases looked : set.held key with
  | none =>
    rw [holdersAt_none looked] at writes
    cases writes
  | some holders =>
    obtain ⟨segment, member, covers, rfl⟩ := Data.lookup_some looked
    rw [holdersAt_some looked] at writes
    simp only [downgrades, reads, decide_true, Bool.true_and, any_eq_false, Bool.and_eq_true,
      decide_eq_true_eq] at upholds
    exact upholds segment member ⟨⟨Nat.lt_of_le_of_lt covers.1 inside.2,
      Nat.lt_of_le_of_lt inside.1 covers.2⟩, writes⟩

theorem Taken.refuses {taken : LockSet Owner} {other : Owner} {wanted : LockType} {region : Range}
    (done : Taken set uid type range taken) (valid : set.Valid)
    (allows : ∀ key, range.Contains key → (set.holdersAt key).Allows uid type)
    (upholds : set.downgrades uid type range = false) (nonempty : region.start < region.stop)
    (refused : set.canLock other wanted region = false) :
    taken.canLock other wanted region = false := by
  apply Bool.eq_false_iff.mpr
  intro can
  apply Bool.eq_false_iff.mp refused
  apply (canLock_iff valid nonempty).mpr
  intro key inside
  have allowsAfter := (canLock_iff done.valid nonempty).mp can key inside
  apply Classical.byContradiction
  intro refuses
  by_cases contained : range.Contains key
  · obtain granted | ⟨_, free, _⟩ := done.settled key contained
    · rw [holdersAt_some granted] at allowsAfter
      exact Holders.grant_refuses (allows key contained)
        (fun reads => not_downgrades upholds reads contained) refuses allowsAfter
    · rw [holdersAt_none free] at refuses
      exact refuses (Holders.allows_free other wanted)
  · rw [holdersAt, done.unchanged key contained, ← holdersAt] at allowsAfter
    exact refuses allowsAfter

end LockSet

/-- A sleeping request is on the queue, and is refused unless it has been notified. -/
structure Waiter.Waits (waiter : Waiter Owner) (locks : LockSet Owner) : Prop where
  nonempty : waiter.range.start < waiter.range.stop
  registered : waiter.phase = .sleeping → waiter.registered = true
  refused : waiter.phase = .sleeping → waiter.notified = false →
    locks.canLock waiter.uid waiter.type waiter.range.toRange = false

structure Locks.Sound (l : Locks Owner) : Prop where
  valid : l.locks.Valid
  waits : ∀ waiter ∈ l.waiters, waiter.Waits l.locks

variable {l next : Locks Owner} {range : LockRange} {type : LockType} {uid : Owner}

theorem not_empty_of_refused {set : LockSet Owner}
    (refuses : ¬ ∀ key, range.Contains key → (set.holdersAt key).Allows uid type) :
    range.start < range.stop := by
  apply Nat.lt_of_not_le
  intro empty
  apply refuses
  intro key inside
  have := inside.1
  have := inside.2
  omega

theorem Locks.attempt_sound {info : OwnerInfo}
    {block : Bool} (sound : l.Sound) (upholds : l.locks.downgrades uid type range.toRange = false)
    (stepped : l.attempt uid info type range block = some next) : next.Sound := by
  simp only [attempt] at stepped
  by_cases allows : ∀ key, range.Contains key → (l.locks.holdersAt key).Allows uid type
  · by_cases nonempty : range.start < range.stop
    · obtain ⟨taken, locked, done⟩ := @LockSet.lock_taken _ _ l.locks uid info type range.toRange
        sound.valid nonempty range.bounded allows
      rw [locked] at stepped
      cases stepped
      refine ⟨done.valid, fun waiter member => ?_⟩
      obtain ⟨waiterNonempty, registered, refused⟩ := sound.waits waiter member
      exact ⟨waiterNonempty, registered, fun sleeps unnotified => done.refuses sound.valid allows
        upholds waiterNonempty (refused sleeps unnotified)⟩
    · have same : l.locks.lock uid info type range.toRange = some (true, l.locks) := by
        have := range.ordered
        simp only [LockSet.lock]
        rw [if_neg (by omega), if_pos (by simp only [Range.length]; omega)]
      rw [same] at stepped
      cases stepped
      exact sound
  have nonempty : range.start < range.stop := not_empty_of_refused allows
  have refused := @LockSet.lock_refused _ _ l.locks uid info type range.toRange sound.valid nonempty allows
  rw [refused] at stepped
  cases block with
  | false =>
    cases stepped
    exact sound
  | true =>
    cases stepped
    refine ⟨sound.valid, fun waiter member => ?_⟩
    cases mem_append.mp member with
    | inl old => exact sound.waits waiter old
    | inr new =>
      rw [mem_singleton.mp new]
      have cannot := (LockSet.canLock_iff sound.valid nonempty).not.mpr allows
      exact ⟨nonempty, fun _ => rfl, fun _ _ => Bool.eq_false_iff.mpr cannot⟩

theorem Locks.Sound.set (sound : l.Sound) {index : Nat} {old new : Waiter Owner}
    (found : l.waiters[index]? = some old) (sameRange : new.range = old.range)
    (awake : new.phase ≠ .sleeping) : Sound { l with waiters := l.waiters.set index new } := by
  refine ⟨sound.valid, fun waiter member => ?_⟩
  cases mem_or_eq_of_mem_set member with
  | inl old => exact sound.waits waiter old
  | inr same =>
    rw [same]
    have nonempty := (sound.waits old (mem_of_getElem? found)).nonempty
    exact ⟨by rw [sameRange]; exact nonempty, fun sleeps => absurd sleeps awake,
      fun sleeps => absurd sleeps awake⟩

theorem Locks.Sound.erase (sound : l.Sound) (index : Nat) :
    Sound { l with waiters := l.waiters.eraseIdx index } :=
  ⟨sound.valid, fun waiter member => sound.waits waiter (mem_of_mem_eraseIdx member)⟩

theorem Locks.step_sound {event : LockEvent Owner} (sound : l.Sound)
    (upholds : l.upholds event = true) (stepped : l.step event = some next) : next.Sound := by
  cases event with
  | lockRegion uid info type range block =>
    exact attempt_sound sound (by simpa [Locks.upholds] using upholds) stepped
  | unlockRegion uid range =>
    obtain ⟨released, unlocked, valid, _⟩ := @LockSet.unlock_exists _ _ l.locks uid range.toRange
      sound.valid range.ordered range.bounded
    simp only [step, unlocked, Option.map_some, Option.some.injEq] at stepped
    subst stepped
    refine ⟨valid, fun waiter member => ?_⟩
    obtain ⟨old, oldMember, rfl⟩ := mem_map.mp member
    obtain ⟨nonempty, registered, _⟩ := sound.waits old oldMember
    -- a sleeping request is on the queue, so it has been notified
    by_cases onQueue : old.registered = true
    · simp only [Waiter.notify, onQueue, if_true]
      exact ⟨nonempty, fun _ => rfl, fun _ unnotified => (nomatch unnotified)⟩
    · simp only [Waiter.notify, onQueue]
      exact ⟨nonempty, registered, fun sleeps => absurd (registered sleeps) onQueue⟩
  | wake index | interrupt index =>
    cases found : l.waiters[index]? with
    | none => simp [step, found] at stepped
    | some waiter =>
      simp only [step, found] at stepped
      split at stepped
      · cases stepped
        exact sound.set found rfl (by simp)
      · cases stepped
  | eventUnregister index =>
    cases found : l.waiters[index]? with
    | none => simp [step, found] at stepped
    | some waiter =>
      simp only [step, found] at stepped
      split at stepped
      · next awake =>
        cases stepped
        exact sound.set found rfl awake
      · cases stepped
  | again index =>
    cases found : l.waiters[index]? with
    | none => simp [step, found] at stepped
    | some waiter =>
      simp only [step, found] at stepped
      split at stepped
      · cases stepped
      split at stepped
      · cases stepped
      · cases stepped
        exact sound.erase index
      · refine attempt_sound (sound.erase index) ?_ stepped
        simpa [Locks.upholds, found] using upholds

/-- In every run without a request to read where its owner writes, no request is forgotten. -/
theorem no_request_forgotten (events : List (LockEvent Owner))
    (ran : run Locks.upholdingStep ⟨[], []⟩ events = some l) :
    ∀ waiter ∈ l.waiters, ¬ waiter.Forgotten l.locks := by
  have initially : (⟨[], []⟩ : Locks Owner).Sound := ⟨LockSet.valid_nil, fun _ member => (nomatch member)⟩
  have sound : l.Sound := by
    apply Data.run_invariant Locks.Sound _ ran initially
    intro before event after sound stepped
    simp only [Locks.upholdingStep] at stepped
    split at stepped
    · next upholds => exact Locks.step_sound sound upholds stepped
    · cases stepped
  intro waiter member forgotten
  obtain ⟨sleeps, unnotified, can⟩ := forgotten
  have refused := (sound.waits waiter member).refused sleeps unnotified
  rw [can] at refused
  cases refused

def firstTen : LockRange :=
  ⟨⟨0, 10⟩, by decide, by decide⟩

def readerWaits : List (LockEvent Nat) :=
  [.lockRegion 1 ⟨1, false⟩ .write firstTen false, .lockRegion 2 ⟨2, false⟩ .read firstTen true]

/-- A reader that waits for a writer is not forgotten when the writer releases the region. -/
theorem reader_not_forgotten :
    ∃ l : Locks Nat,
      run Locks.upholdingStep ⟨[], []⟩ (readerWaits ++ [.unlockRegion 1 firstTen]) = some l ∧
      l.waiters ≠ [] ∧ ∀ waiter ∈ l.waiters, ¬ waiter.Forgotten l.locks :=
  ⟨_, rfl, cons_ne_nil _ _, no_request_forgotten (readerWaits ++ [.unlockRegion 1 firstTen]) rfl⟩

/-- A writer turns its lock into a read lock: a reader that waits is granted now, and sleeps on. -/
theorem downgrade_forgets_reader :
    ∃ l : Locks Nat,
      run Locks.step ⟨[], []⟩ (readerWaits ++ [.lockRegion 1 ⟨1, false⟩ .read firstTen false]) =
        some l ∧
      ∃ waiter ∈ l.waiters, waiter.Forgotten l.locks :=
  ⟨_, rfl, _, mem_singleton_self _, rfl, rfl, rfl⟩

end BVisor.FileLock
