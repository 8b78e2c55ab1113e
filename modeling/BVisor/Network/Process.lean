import BVisor.Data.Run
import BVisor.Network.Reassembler

/-! `Fragmentation` with any number of concurrent calls of `Process`. A critical section under
`f.mu` is one step, and so is `reassembler.process`, which is under `r.mu`. -/

namespace BVisor.Network

structure FragmentID where
  source : List Byte
  destination : List Byte
  id : BitVec 32
  protocol : BitVec 8
deriving DecidableEq

/-- A reassembler with what `Fragmentation` knows of it. `listed` tells whether it is in the map. -/
structure Entry where
  id : FragmentID
  createdAt : Int
  listed : Bool
  reassembler : Reassembler
deriving DecidableEq

def Entry.new (id : FragmentID) (createdAt : Int) : Entry :=
  { id, createdAt, listed := true, reassembler := newReassembler }

inductive Result where
  | failed | notReady | ready
deriving DecidableEq

/-- Where a call of `Process` stands: before `r.process`, before the last critical section, or at
its end; reassemblers are numbered in the order of their creation. -/
inductive Call where
  | looked (entry : Nat) (fragment : Fragment)
  | processed (entry : Nat) (outcome : Outcome)
  | refused
  | returned (entry : Nat) (result : Result)
deriving DecidableEq

/-- `rList` has the newest reassembler first, and `released` is the nil map. `forgotten` is what
`release` has taken off a negative `memSize` by setting it to 0. -/
structure Fragmentation where
  highLimit : Int
  lowLimit : Int
  timeout : Int
  blockSize : Nat
  entries : List Entry
  rList : List Nat
  memSize : Int
  released : Bool
  calls : List Call
  forgotten : Int
deriving DecidableEq

def minBlockSize : Nat := 1

def newFragmentation (blockSize : Nat) (highMemoryLimit lowMemoryLimit : Int) (timeout : Int) : Fragmentation :=
  let lowMemoryLimit := if lowMemoryLimit ≥ highMemoryLimit then highMemoryLimit else lowMemoryLimit
  { highLimit := highMemoryLimit
    lowLimit := if lowMemoryLimit < 0 then 0 else lowMemoryLimit
    timeout
    blockSize := if blockSize < minBlockSize then minBlockSize else blockSize
    entries := []
    rList := []
    memSize := 0
    released := false
    calls := []
    forgotten := 0 }

def Entry.delist (id : FragmentID) (entry : Entry) : Entry :=
  if entry.id = id then { entry with listed := false } else entry

def Entry.retire (entry : Entry) : Entry :=
  { entry with reassembler := entry.reassembler.retire }

namespace Fragmentation

def release (f : Fragmentation) (index : Nat) : Fragmentation :=
  match f.entries[index]? with
  | none => f
  | some entry =>
    if entry.reassembler.done then f
    else
      let memSize := f.memSize - entry.reassembler.memSize
      { f with
        entries := (f.entries.map (Entry.delist entry.id)).modify index Entry.retire
        rList := f.rList.erase index
        memSize := if memSize < 0 then 0 else memSize
        forgotten := if memSize < 0 then f.forgotten - memSize else f.forgotten }

/-- The loop of `releaseReassemblersLocked`; every turn takes the last element off `rList`. -/
def expireLoop (f : Fragmentation) (now : Int) : Nat → Fragmentation
  | 0 => f
  | fuel + 1 =>
    match f.rList.getLast? with
    | none => f
    | some index =>
      match f.entries[index]? with
      | none => f
      | some entry =>
        if f.timeout > now - entry.createdAt then f
        else (f.release index).expireLoop now fuel

def releaseReassemblersLocked (f : Fragmentation) (now : Int) : Fragmentation :=
  f.expireLoop now f.rList.length

def evictLoop (f : Fragmentation) : Nat → Fragmentation
  | 0 => f
  | fuel + 1 =>
    if f.memSize > f.lowLimit then
      match f.rList.getLast? with
      | none => f
      | some index => (f.release index).evictLoop fuel
    else f

def evict (f : Fragmentation) : Fragmentation :=
  if f.memSize > f.highLimit then f.evictLoop f.rList.length else f

def find (f : Fragmentation) (id : FragmentID) : Option Nat :=
  f.entries.findIdx? fun entry => entry.listed && entry.id == id

/-- The first critical section of a call. `createdAt` and `now` are two looks at the clock. -/
def lookup (f : Fragmentation) (id : FragmentID) (fragment : Fragment) (createdAt now : Int) : Fragmentation :=
  if checkArgs f.blockSize fragment ≠ none ∨ f.released then
    { f with calls := f.calls ++ [.refused] }
  else
    match f.find id with
    | some index => { f with calls := f.calls ++ [.looked index fragment] }
    | none =>
      let index := f.entries.length
      let added :=
        { f with
          entries := f.entries ++ [.new id createdAt]
          rList := index :: f.rList
          calls := f.calls ++ [.looked index fragment] }
      if f.rList = [] then added.releaseReassemblersLocked now else added

def process (f : Fragmentation) (call : Nat) : Option Fragmentation :=
  match f.calls[call]? with
  | some (.looked index fragment) =>
    match f.entries[index]? with
    | none => none
    | some entry =>
      let (reassembler, outcome) := entry.reassembler.process fragment
      some { f with
        entries := f.entries.set index { entry with reassembler }
        calls := f.calls.set call (.processed index outcome) }
  | _ => none

def account (f : Fragmentation) (call : Nat) : Option Fragmentation :=
  match f.calls[call]? with
  | some (.processed index outcome) =>
    let returns (f : Fragmentation) (result : Result) : Fragmentation :=
      { f with calls := f.calls.set call (.returned index result) }
    match outcome with
    | .failed _ => some ((returns f .failed).release index)
    | .ignored => some (returns f .notReady).evict
    | .waiting memConsumed =>
      some { returns f .notReady with memSize := f.memSize + memConsumed }.evict
    | .ready _ _ memConsumed =>
      some ({ returns f .ready with memSize := f.memSize + memConsumed }.release index).evict
  | _ => none

/-- `Release`, which goes through the map in some order. -/
def releaseAll (f : Fragmentation) (order : List Nat) : Option Fragmentation :=
  if order.Perm f.rList then
    some { order.foldl release f with released := true }
  else none

end Fragmentation

inductive Event where
  | lookup (id : FragmentID) (fragment : Fragment) (createdAt now : Int)
  | process (call : Nat)
  | account (call : Nat)
  | expire (now : Int)
  | releaseAll (order : List Nat)
deriving DecidableEq

def Fragmentation.step (f : Fragmentation) : Event → Option Fragmentation
  | .lookup id fragment createdAt now => some (f.lookup id fragment createdAt now)
  | .process call => f.process call
  | .account call => f.account call
  | .expire now => some (f.releaseReassemblersLocked now)
  | .releaseAll order => f.releaseAll order

def Call.inFlight : Call → Bool
  | .looked _ _ | .processed _ _ => true
  | .refused | .returned _ _ => false

def Fragmentation.held (f : Fragmentation) : Int :=
  (f.entries.map fun entry => if entry.listed then (entry.reassembler.memSize : Int) else 0).sum

def Fragmentation.readyCount (f : Fragmentation) (index : Nat) : Nat :=
  f.calls.count (.returned index .ready)

end BVisor.Network
