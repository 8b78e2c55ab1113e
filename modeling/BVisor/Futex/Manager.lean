import BVisor.Data.Run

/-!
# The futex manager and the calls that wait on it

Each step is one critical section of a bucket lock, or one return of `Task.block`. The words of
user memory are not protected by bucket locks: a compare-and-swap loop meets the values that
other threads store right before its swaps, and a thread may store to a word between steps.
-/

namespace BVisor.Futex

def FUTEX_TID_MASK : UInt32 := 0x3fffffff

def FUTEX_WAITERS : UInt32 := 0x80000000

def FUTEX_OWNER_DIED : UInt32 := 0x40000000

def FUTEX_OP_OPARG_SHIFT : UInt32 := 8

inductive Errno where
  | EAGAIN | EDEADLK | EFAULT | EINVAL | ENOSYS | EPERM | ERESTARTSYS | ERESTART_RESTARTBLOCK
  | ETIMEDOUT
  deriving DecidableEq

structure Task where
  tid : UInt32
  positive : tid ≠ 0
  masked : tid &&& FUTEX_TID_MASK = tid
  deriving DecidableEq

inductive KeyKind where
  | kindPrivate | kindSharedPrivate | kindSharedMappable
  deriving DecidableEq

structure Key where
  kind : KeyKind
  mappable : Option Nat
  offset : UInt64
  deriving DecidableEq

def Key.matches (k k2 : Key) : Bool :=
  k.kind == k2.kind && k.mappable == k2.mappable && k.offset == k2.offset

/-- A cell of memory that holds a futex word, under whatever address a task maps it. -/
abbrev Location := Nat

/-- The private buckets are the manager's own; forked managers share one shared bucket. -/
structure Manager where
  self : Nat
  sharedBucket : Nat
  deriving DecidableEq

inductive BucketID where
  | privateBucket (manager : Nat) (index : UInt64)
  | sharedBucket (bucket : Nat)
  deriving DecidableEq

/-- The memory of the calling task as it is when the call is made. -/
structure Target where
  manager : Manager
  untaggedUserAddr : UInt64 → UInt64
  getSharedKey : UInt64 → Except Errno Key
  location : UInt64 → Option Location

def getKey (t : Target) (addr : UInt64) (isPrivate : Bool) : Except Errno Key :=
  let addr := t.untaggedUserAddr addr
  if addr &&& 3 ≠ 0 then
    .error .EINVAL
  else if isPrivate then
    .ok ⟨.kindPrivate, none, addr⟩
  else
    t.getSharedKey addr

def bucketIndexForAddr (addr : UInt64) : UInt64 :=
  let h1 := (addr >>> 2) + (addr >>> 12) + (addr >>> 22)
  let h2 := (addr >>> 32) + (addr >>> 42)
  (h1 + h2) % 1024

def Manager.lockBucket (m : Manager) (k : Key) : BucketID :=
  match k.kind with
  | .kindSharedMappable => .sharedBucket m.sharedBucket
  | _ => .privateBucket m.self (bucketIndexForAddr k.offset)

/-! ## Loops that load a word, compute and swap -/

inductive Turn (ρ : Type) where
  | leave (result : ρ)
  | swap (new : UInt32) (result : ρ)

/-- The word at the end, and the loop's result. Each store is made right before a swap, which
fails if the store changed the word; with no store left, the swap succeeds. -/
def swapLoop {ρ : Type} (turn : UInt32 → Turn ρ) : List UInt32 → UInt32 → UInt32 × ρ
  | [], cur =>
    match turn cur with
    | .leave result => (cur, result)
    | .swap new result => (new, result)
  | stored :: rest, cur =>
    match turn cur with
    | .leave result => (cur, result)
    | .swap new result => if stored = cur then (new, result) else swapLoop turn rest stored

def opValue (opType opArg oldVal : UInt32) : Option UInt32 :=
  match opType with
  | 1 => some (oldVal + opArg)
  | 2 => some (oldVal ||| opArg)
  | 3 => some (oldVal &&& ~~~opArg)
  | 4 => some (oldVal ^^^ opArg)
  | _ => none

def opTurn (opType opArg oldVal : UInt32) : Turn (Option UInt32) :=
  match opType with
  | 0 => .swap opArg (some oldVal)
  | _ =>
    match opValue opType opArg oldVal with
    | none => .leave none
    | some newVal => .swap newVal (some oldVal)

def compareOld (cmp oldVal cmpArg : UInt32) : Except Errno Bool :=
  match cmp with
  | 0 => .ok (oldVal = cmpArg)
  | 1 => .ok (oldVal ≠ cmpArg)
  | 2 => .ok (oldVal < cmpArg)
  | 3 => .ok (oldVal ≤ cmpArg)
  | 4 => .ok (cmpArg < oldVal)
  | 5 => .ok (cmpArg ≤ oldVal)
  | _ => .error .ENOSYS

def opOperands (opIn : UInt32) : UInt32 × UInt32 :=
  let opType := (opIn >>> 28) &&& 0xf
  let opArg := (opIn >>> 12) &&& 0xfff
  if opType &&& FUTEX_OP_OPARG_SHIFT ≠ 0 then
    -- A Go shift by 32 or more leaves nothing.
    (opType &&& ~~~FUTEX_OP_OPARG_SHIFT, if opArg < 32 then 1 <<< opArg else 0)
  else
    (opType, opArg)

def atomicOp (opIn : UInt32) (stores : List UInt32) (word : UInt32) : UInt32 × Except Errno Bool :=
  let operands := opOperands opIn
  -- A swap that does not compare cannot fail: its last value is what it replaces.
  let stores := if operands.1 = 0 then [] else stores
  let (after, old) := swapLoop (opTurn operands.1 operands.2) stores word
  match old with
  | none => (after, .error .ENOSYS)
  | some oldVal => (after, compareOld ((opIn >>> 24) &&& 0xf) oldVal (opIn &&& 0xfff))

inductive LockOutcome where
  | deadlock | acquired | refused | queued
  deriving DecidableEq

def lockTurn (tid : UInt32) (attempt : Bool) (cur : UInt32) : Turn LockOutcome :=
  if cur &&& FUTEX_TID_MASK = tid then
    .leave .deadlock
  else if cur &&& FUTEX_TID_MASK = 0 then
    .swap (tid ||| (cur &&& FUTEX_OWNER_DIED)) .acquired
  else if attempt then
    .leave .refused
  else if cur &&& FUTEX_WAITERS = 0 then
    .swap (cur ||| FUTEX_WAITERS) .queued
  else
    .leave .queued

/-! ## Waiters and calls -/

structure Waiter where
  /-- A wake-up was sent to `C` and not received yet. -/
  woken : Bool := false
  key : Key := ⟨.kindPrivate, none, 0⟩
  bitmask : UInt32 := 0
  tid : UInt32 := 0
  bucket : Option BucketID := none
  /-- A call that wakes waiters has counted this one since it was prepared. -/
  counted : Bool := false
  deriving DecidableEq

inductive Function where
  | futexWaitAbsolute | futexWaitDuration | futexLockPI
  deriving DecidableEq

structure Call where
  function : Function
  forever : Bool
  word : Location
  deriving DecidableEq

inductive BlockError where
  | timedOut | interrupted
  deriving DecidableEq

inductive Phase where
  | running
  | blocked (call : Call)
  /-- `Task.block` has returned, and the waiter is not removed yet. -/
  | leaving (call : Call) (err : Option BlockError)
  deriving DecidableEq

def Phase.call : Phase → Option Call
  | .running => none
  | .blocked call => some call
  | .leaving call _ => some call

def Call.result (call : Call) : Option BlockError → Option Errno
  | none => none
  | some .timedOut => some .ETIMEDOUT
  | some .interrupted =>
    match call.function with
    | .futexWaitDuration =>
      if call.forever then some .ERESTARTSYS else some .ERESTART_RESTARTBLOCK
    | _ => some .ERESTARTSYS

def names (word : UInt32) (task : Task) : Bool :=
  word &&& FUTEX_TID_MASK = task.tid

structure Return where
  task : Task
  function : Function
  result : Option Errno
  counted : Bool
  /-- The futex word named the caller when the call returned. -/
  owner : Bool
  deriving DecidableEq

structure State where
  words : Location → UInt32
  buckets : BucketID → List Task
  waiters : Task → Waiter
  calls : Task → Phase
  returns : List Return

def State.init (words : Location → UInt32) : State :=
  ⟨words, fun _ => [], fun _ => {}, fun _ => .running, []⟩

variable (s : State)

namespace State

def setWord (l : Location) (value : UInt32) : State :=
  { s with words := Function.update s.words l value }

def setWaiter (task : Task) (w : Waiter) : State :=
  { s with waiters := Function.update s.waiters task w }

def setBucket (b : BucketID) (list : List Task) : State :=
  { s with buckets := Function.update s.buckets b list }

def setCall (task : Task) (phase : Phase) : State :=
  { s with calls := Function.update s.calls task phase }

def loadUint32 (t : Target) (addr : UInt64) : Except Errno (Location × UInt32) :=
  match t.location addr with
  | none => .error .EFAULT
  | some l => .ok (l, s.words l)

/-! ## Waking and requeueing, with the bucket locks held -/

def wakeWaiterLocked (b : BucketID) (w : Task) : State :=
  (s.setBucket b ((s.buckets b).erase w)).setWaiter w
    { s.waiters w with woken := true, bucket := none }

def count (w : Task) : State :=
  s.setWaiter w { s.waiters w with counted := true }

def eligible (key : Key) (bitmask : UInt32) (w : Task) : Bool :=
  (s.waiters w).key.matches key && (s.waiters w).bitmask &&& bitmask != 0

def wakeLoop (b : BucketID) (key : Key) (bitmask : UInt32) (n : Int) :
    List Task → Nat → State → State × Nat
  | [], done, s => (s, done)
  | w :: next, done, s =>
    if done < n then
      if s.eligible key bitmask w then
        wakeLoop b key bitmask n next (done + 1) ((s.wakeWaiterLocked b w).count w)
      else
        wakeLoop b key bitmask n next done s
    else
      (s, done)

def wakeLocked (b : BucketID) (key : Key) (bitmask : UInt32) (n : Int) : State × Nat :=
  wakeLoop b key bitmask n (s.buckets b) 0 s

def requeueWaiter (b target : BucketID) (nkey : Key) (w : Task) : State :=
  let removed := s.setBucket b ((s.buckets b).erase w)
  (removed.setBucket target (removed.buckets target ++ [w])).setWaiter w
    { s.waiters w with key := nkey, bucket := some target }

/-- Up to `left` waiters of the rest of the bucket are moved. A waiter that goes back to the same
bucket is met again. -/
def requeueLoop (b target : BucketID) (key nkey : Key) : Nat → List Task → State → State
  | 0, _, s => s
  | left + 1, rest, s =>
    match rest.dropWhile fun w => !(s.waiters w).key.matches key with
    | [] => s
    | w :: next =>
      requeueLoop b target key nkey left (if b = target then next ++ [w] else next)
        (s.requeueWaiter b target nkey w)

def requeueLocked (b target : BucketID) (key nkey : Key) (n : Int) : State :=
  requeueLoop b target key nkey n.toNat (s.buckets b) s

/-! ## The calls -/

def finish (task : Task) (function : Function) (l : Option Location) (result : Option Errno) : State :=
  { s with
    returns := s.returns ++ [⟨task, function, result, (s.waiters task).counted,
      l.any fun l => names (s.words l) task⟩]
    calls := Function.update s.calls task .running }

def enqueue (task : Task) (b : BucketID) (call : Call) : State :=
  ((s.setBucket b (s.buckets b ++ [task])).setWaiter task
    { s.waiters task with bucket := some b }).setCall task (.blocked call)

def waitPrepare (task : Task) (t : Target) (addr : UInt64) (isPrivate : Bool)
    (val bitmask : UInt32) (function : Function) (forever : Bool) : State :=
  match getKey t addr isPrivate with
  | .error err => (s.setWaiter task { s.waiters task with counted := false }).finish task function none (some err)
  | .ok k =>
    let s := s.setWaiter task
      { s.waiters task with woken := false, key := k, bitmask := bitmask, counted := false }
    match s.loadUint32 t addr with
    | .error err => s.finish task function none (some err)
    | .ok (l, cur) =>
      if cur ≠ val then
        s.finish task function (some l) (some .EAGAIN)
      else
        s.enqueue task (t.manager.lockBucket k) ⟨function, forever, l⟩

def lockPI (task : Task) (t : Target) (addr : UInt64) (isPrivate forever : Bool) (stores : List UInt32) : State :=
  match getKey t addr isPrivate with
  | .error err => (s.setWaiter task { s.waiters task with counted := false }).finish task
      .futexLockPI none (some err)
  | .ok k =>
    let s := s.setWaiter task
      { s.waiters task with woken := false, key := k, tid := task.tid, counted := false }
    match s.loadUint32 t addr with
    | .error err => s.finish task .futexLockPI none (some err)
    | .ok (l, cur) =>
      let (word, outcome) := swapLoop (lockTurn task.tid false) stores cur
      let s := s.setWord l word
      match outcome with
      | .deadlock => s.finish task .futexLockPI (some l) (some .EDEADLK)
      | .acquired => s.finish task .futexLockPI (some l) none
      | _ => s.enqueue task (t.manager.lockBucket k) ⟨.futexLockPI, forever, l⟩

def tryLockPI (task : Task) (t : Target) (addr : UInt64) (isPrivate : Bool)
    (stores : List UInt32) : State × Option Errno :=
  match getKey t addr isPrivate with
  | .error err => (s, some err)
  | .ok k =>
    let s := s.setWaiter task { s.waiters task with woken := false, key := k, tid := task.tid }
    match s.loadUint32 t addr with
    | .error err => (s, some err)
    | .ok (l, cur) =>
      let (word, outcome) := swapLoop (lockTurn task.tid true) stores cur
      (s.setWord l word,
        match outcome with
        | .deadlock => some .EDEADLK
        | .acquired => none
        | _ => some .EAGAIN)

def waitComplete (task : Task) : State :=
  match (s.waiters task).bucket with
  | none => s
  | some b => (s.setBucket b ((s.buckets b).erase task)).setWaiter task
      { s.waiters task with bucket := none }

def wake (t : Target) (addr : UInt64) (isPrivate : Bool) (bitmask : UInt32) (n : Int) :
    State × Except Errno Nat :=
  match getKey t addr isPrivate with
  | .error err => (s, .error err)
  | .ok k =>
    let (s, done) := s.wakeLocked (t.manager.lockBucket k) k bitmask n
    (s, .ok done)

def doRequeue (t : Target) (addr naddr : UInt64) (isPrivate : Bool) (val : Option UInt32)
    (nwake nreq : Int) : State × Except Errno Nat :=
  match getKey t addr isPrivate, getKey t naddr isPrivate with
  | .error err, _ => (s, .error err)
  | .ok _, .error err => (s, .error err)
  | .ok k1, .ok k2 =>
    let refused : Option Errno :=
      match val with
      | none => none
      | some val =>
        match s.loadUint32 t addr with
        | .error err => some err
        | .ok (_, cur) => if cur ≠ val then some .EAGAIN else none
    match refused with
    | some err => (s, .error err)
    | none =>
      let b1 := t.manager.lockBucket k1
      let (s, done) := s.wakeLocked b1 k1 (~~~0) nwake
      (s.requeueLocked b1 (t.manager.lockBucket k2) k1 k2 nreq, .ok done)

def wakeOp (t : Target) (addr1 addr2 : UInt64) (isPrivate : Bool) (nwake1 nwake2 : Int)
    (op : UInt32) (stores : List UInt32) : State × Except Errno Nat :=
  match getKey t addr1 isPrivate, getKey t addr2 isPrivate with
  | .error err, _ => (s, .error err)
  | .ok _, .error err => (s, .error err)
  | .ok k1, .ok k2 =>
    match s.loadUint32 t addr2 with
    | .error err => (s, .error err)
    | .ok (l, cur) =>
      let (word, cond) := atomicOp op stores cur
      let s := s.setWord l word
      match cond with
      | .error err => (s, .error err)
      | .ok cond =>
        let (s, done) := s.wakeLocked (t.manager.lockBucket k1) k1 (~~~0) nwake1
        if cond then
          let (s, more) := s.wakeLocked (t.manager.lockBucket k2) k2 (~~~0) nwake2
          (s, .ok (done + more))
        else
          (s, .ok done)

/-- The compare-and-swap of `unlockPILocked` is not retried: a store before it makes it fail. -/
def unlockPI (task : Task) (t : Target) (addr : UInt64) (isPrivate : Bool)
    (stored : Option UInt32) : State × Option Errno :=
  match getKey t addr isPrivate with
  | .error err => (s, some err)
  | .ok k =>
    match s.loadUint32 t addr with
    | .error err => (s, some err)
    | .ok (l, cur) =>
      if cur &&& FUTEX_TID_MASK ≠ task.tid then
        (s, some .EPERM)
      else
        let b := t.manager.lockBucket k
        let raced := stored.any (· ≠ cur)
        match (s.buckets b).filter fun w => (s.waiters w).key.matches k with
        | [] => if raced then (s.setWord l (stored.getD cur), some .EAGAIN)
            else (s.setWord l 0, none)
        | next :: others =>
          let val := if others.isEmpty then (s.waiters next).tid
            else (s.waiters next).tid ||| FUTEX_WAITERS
          if raced then
            (s.setWord l (stored.getD cur), some .EINVAL)
          else
            ((s.setWord l val).wakeWaiterLocked b next, none)

end State

inductive Event where
  | waitPrepare (task : Task) (t : Target) (addr : UInt64) (isPrivate : Bool)
      (val bitmask : UInt32) (function : Function) (forever : Bool)
  | lockPI (task : Task) (t : Target) (addr : UInt64) (isPrivate forever : Bool) (stores : List UInt32)
  | tryLockPI (task : Task) (t : Target) (addr : UInt64) (isPrivate : Bool) (stores : List UInt32)
  | blockReturns (task : Task) (err : Option BlockError)
  | waitComplete (task : Task)
  | wake (t : Target) (addr : UInt64) (isPrivate : Bool) (bitmask : UInt32) (n : Int)
  | requeue (t : Target) (addr naddr : UInt64) (isPrivate : Bool) (val : Option UInt32) (nwake nreq : Int)
  | wakeOp (t : Target) (addr1 addr2 : UInt64) (isPrivate : Bool) (nwake1 nwake2 : Int)
      (op : UInt32) (stores : List UInt32)
  | unlockPI (task : Task) (t : Target) (addr : UInt64) (isPrivate : Bool) (stored : Option UInt32)
  | store (l : Location) (value : UInt32)

/-- `Task.block` receives from `C`, or leaves for its timer or an interruption. -/
def State.blockReturns (task : Task) (err : Option BlockError) : Option State :=
  match s.calls task with
  | .blocked call =>
    match err with
    | none =>
      if (s.waiters task).woken then
        some ((s.setWaiter task { s.waiters task with woken := false }).setCall task (.leaving call none))
      else
        none
    | some .timedOut =>
      if call.forever then none else some (s.setCall task (.leaving call (some .timedOut)))
    | some .interrupted => some (s.setCall task (.leaving call (some .interrupted)))
  | _ => none

def State.step (s : State) : Event → Option State
  | .waitPrepare task t addr isPrivate val bitmask function forever =>
    if s.calls task = .running ∧ function ≠ .futexLockPI then
      some (s.waitPrepare task t addr isPrivate val bitmask function forever)
    else
      none
  | .lockPI task t addr isPrivate forever stores =>
    if s.calls task = .running then
      some (s.lockPI task t addr isPrivate forever stores)
    else
      none
  | .tryLockPI task t addr isPrivate stores =>
    if s.calls task = .running then
      some (s.tryLockPI task t addr isPrivate stores).1
    else
      none
  | .blockReturns task err => s.blockReturns task err
  | .waitComplete task =>
    match s.calls task with
    | .leaving call err =>
      some ((s.waitComplete task).finish task call.function (some call.word) (call.result err))
    | _ => none
  | .wake t addr isPrivate bitmask n => some (s.wake t addr isPrivate bitmask n).1
  | .requeue t addr naddr isPrivate val nwake nreq =>
    some (s.doRequeue t addr naddr isPrivate val nwake nreq).1
  | .wakeOp t addr1 addr2 isPrivate nwake1 nwake2 op stores =>
    some (s.wakeOp t addr1 addr2 isPrivate nwake1 nwake2 op stores).1
  | .unlockPI task t addr isPrivate stored =>
    if s.calls task = .running then
      some (s.unlockPI task t addr isPrivate stored).1
    else
      none
  | .store l value => some (s.setWord l value)

end BVisor.Futex
