import BVisor.Bpf.Instrumented

/-! The seccomp filters of the sentry's tasks, and the cache of their results. -/

namespace BVisor.Kernel

open BVisor.Bpf

def seccompRetKillThread : BitVec 32 := 0x00000000
def seccompRetAllow : BitVec 32 := 0x7fff0000
def seccompRetAction : BitVec 32 := 0x7fff0000
def seccompRetActionFull : BitVec 32 := 0xffff0000

def maxSyscallNum : Nat := 2000
def maxSyscallFilterInstructions : Nat := 2 ^ 15

def uncacheableBPFAction : BitVec 32 := seccompRetActionFull

def nativeEndian : Endianness := .little

def littleEndianBytes {width : Nat} (count : Nat) (value : BitVec width) : List (BitVec 8) :=
  (List.range count).map fun i => value.extractLsb' (8 * i) 8

/-- `linux.SeccompData`. -/
structure SeccompData where
  nr : BitVec 32
  arch : BitVec 32
  instructionPointer : BitVec 64
  args : Vector (BitVec 64) 6
deriving DecidableEq

/-- The layout that both `MarshalUnsafe` and `MarshalBytes` give. -/
def SeccompData.marshal (data : SeccompData) : Input :=
  littleEndianBytes 4 data.nr ++ littleEndianBytes 4 data.arch ++
    littleEndianBytes 8 data.instructionPointer ++ data.args.toList.flatMap (littleEndianBytes 8)

def nrOffset : Nat := 0
def archOffset : Nat := 4
def fieldSize : Nat := 4

/-- The smaller action is the stricter one; of equal actions the earlier stays. -/
def stricter (thisRet ret : BitVec 32) : BitVec 32 :=
  if thisRet &&& seccompRetAction < ret &&& seccompRetAction then thisRet else ret

def runFilters (input : Input) : List Program → BitVec 32 → BitVec 32
  | [], ret => ret
  | program :: rest, ret =>
    match exec nativeEndian program input with
    | .error _ => runFilters input rest (stricter seccompRetKillThread ret)
    | .ok thisRet => runFilters input rest (stricter thisRet ret)

inductive CacheabilityError where
  | failed (error : Error)
  | accessed (offset : Nat)
deriving DecidableEq

/-- The first byte read that belongs neither to the number nor to the architecture. -/
def foreignAccess (inputAccessed : List Bool) : Option Nat :=
  (List.range inputAccessed.length).find? fun offset =>
    inputAccessed[offset]? == some true &&
      !(decide (nrOffset ≤ offset) && decide (offset < nrOffset + fieldSize)) &&
      !(decide (archOffset ≤ offset) && decide (offset < archOffset + fieldSize))

theorem instrumentedExec_isSome (program : Program) (input : Input) :
    (instrumentedExec nativeEndian program input).isSome = true := by
  obtain ⟨result, ran, _⟩ := instrumentedExec_spec nativeEndian program input
  rw [ran, Option.isSome_some]

def checkFilterCacheability (program : Program) (input : Input) : Except CacheabilityError (BitVec 32) :=
  match (instrumentedExec nativeEndian program input).get (instrumentedExec_isSome program input) with
  | (_, some error) => .error (.failed error)
  | (metrics, none) =>
    match foreignAccess metrics.inputAccessed with
    | some offset => .error (.accessed offset)
    | none => .ok metrics.returnValue

def cacheableResult (input : Input) : List Program → BitVec 32 → Option (BitVec 32)
  | [], ret => some ret
  | program :: rest, ret =>
    match checkFilterCacheability program input with
    | .error _ => none
    | .ok result => cacheableResult input rest (stricter result ret)

structure TaskSeccomp where
  filters : List Program
  cache : Vector (BitVec 32) (maxSyscallNum + 1)
  cacheAuditNumber : BitVec 32

def cacheInput (sysno : Nat) (auditNumber : BitVec 32) : SeccompData :=
  { nr := BitVec.ofNat 32 sysno
    arch := auditNumber
    instructionPointer := 0
    args := Vector.replicate 6 0 }

def cacheEntry (filters : List Program) (auditNumber : BitVec 32) (sysno : Nat) : BitVec 32 :=
  match cacheableResult (cacheInput sysno auditNumber).marshal filters.reverse seccompRetAllow with
  | some ret => ret
  | none => uncacheableBPFAction

/-- `populateCache` on a task whose image has the given audit number. -/
def populateCache (filters : List Program) (auditNumber : BitVec 32) : TaskSeccomp :=
  { filters
    cache := Vector.ofFn fun sysno => cacheEntry filters auditNumber sysno
    cacheAuditNumber := auditNumber }

structure Task where
  auditNumber : BitVec 32
  threadGroup : Nat
  seccomp : Option TaskSeccomp

/-- `checkSeccompSyscall`'s input, as `evaluateSyscallFilters` fills it in. -/
def Task.seccompData (task : Task) (sysno : BitVec 32) (args : Vector (BitVec 64) 6)
    (ip : BitVec 64) : SeccompData :=
  { nr := sysno
    arch := task.auditNumber
    instructionPointer := ip
    args }

def Task.runAllFilters (task : Task) (sysno : BitVec 32) (args : Vector (BitVec 64) 6)
    (ip : BitVec 64) : BitVec 32 :=
  match task.seccomp with
  | none => seccompRetAllow
  | some ts => runFilters (task.seccompData sysno args ip).marshal ts.filters.reverse seccompRetAllow

def TaskSeccomp.cached (ts : TaskSeccomp) (auditNumber sysno : BitVec 32) : Option (BitVec 32) :=
  if auditNumber = ts.cacheAuditNumber ∧ 0 ≤ sysno.toInt ∧
      sysno.toInt ≤ maxSyscallNum then
    match ts.cache[sysno.toNat]? with
    | some cached => if cached ≠ uncacheableBPFAction then some cached else none
    | none => none
  else none

def Task.evaluateSyscallFilters (task : Task) (sysno : BitVec 32) (args : Vector (BitVec 64) 6)
    (ip : BitVec 64) : BitVec 32 :=
  match task.seccomp with
  | none => seccompRetAllow
  | some ts =>
    match ts.cached task.auditNumber sysno with
    | some cached => cached
    | none => runFilters (task.seccompData sysno args ip).marshal ts.filters.reverse seccompRetAllow

inductive Errno where
  | enomem
deriving DecidableEq

abbrev Tasks := List Task

def Task.filters (task : Task) : List Program :=
  match task.seccomp with
  | none => []
  | some ts => ts.filters

/-- The length of the new program and of all installed ones, with a penalty of 4 for each. -/
def totalLength (program : Program) (installed : List Program) : Nat :=
  program.instructions.length + (installed.map fun filter => filter.instructions.length + 4).sum

def Task.install (task : Task) (filters : List Program) : Task :=
  { task with seccomp := some (populateCache filters task.auditNumber) }

/-- `AppendSyscallFilter` by the task at `caller`. With `syncAll` every other task of its thread
group gets a copy of the new filters, with a cache of its own. -/
def appendSyscallFilter (tasks : Tasks) (caller : Nat) (program : Program) (syncAll : Bool) :
    Except Errno Tasks :=
  match tasks[caller]? with
  | none => .ok tasks
  | some task =>
    if totalLength program task.filters > maxSyscallFilterInstructions then .error .enomem
    else
      .ok (tasks.mapIdx fun index other =>
        if index = caller ∨ (syncAll = true ∧ other.threadGroup = task.threadGroup) then
          other.install (task.filters ++ [program])
        else other)

/-- The copy that `clone` gives the new task, and that a restored task repopulates. -/
def Task.repopulate (task : Task) : Task :=
  match task.seccomp with
  | none => task
  | some ts => task.install ts.filters

inductive Event where
  | append (caller : Nat) (program : Program) (syncAll : Bool)
  | clone (parent threadGroup : Nat)
  | execve (task : Nat) (auditNumber : BitVec 32)
  | restore
deriving DecidableEq

def Tasks.after (tasks : Tasks) : Event → Tasks
  | .append caller program syncAll =>
    match appendSyscallFilter tasks caller program syncAll with
    | .error _ => tasks
    | .ok after => after
  | .clone parent threadGroup =>
    match tasks[parent]? with
    | none => tasks
    | some task => tasks ++ [{ task with threadGroup }.repopulate]
  | .execve index auditNumber => tasks.modify index fun task => { task with auditNumber }
  | .restore => tasks.map Task.repopulate

def Tasks.run (tasks : Tasks) (events : List Event) : Tasks :=
  events.foldl Tasks.after tasks

def initialTasks (auditNumber : BitVec 32) : Tasks :=
  [{ auditNumber, threadGroup := 0, seccomp := none }]

end BVisor.Kernel
