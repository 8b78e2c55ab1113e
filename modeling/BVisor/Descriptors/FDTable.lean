import BVisor.Data.Run
import BVisor.Descriptors.Bitmap

/-!
# The file descriptor table

The operations of `FDTable` on a table and on the reference counts of the files. `none` is a
panic. `File` stands for the addresses of file descriptions, which are never nil here.
-/

namespace BVisor.Descriptors

def MaxFdLimit : Nat := 2 ^ 31 - 1

def fdsPerBucket : Nat := 512

structure FDFlags where
  closeOnExec : Bool
  deriving DecidableEq

inductive Errno where
  | EBADF | EINVAL | EMFILE
  deriving DecidableEq

variable {File : Type} [DecidableEq File]

structure Descriptor (File : Type) where
  file : File
  flags : FDFlags
  deriving DecidableEq

abbrev DescriptorBucket (File : Type) :=
  Fin fdsPerBucket → Option (Descriptor File)

structure FDTable (File : Type) where
  fdBitmap : Bitmap
  slice : List (Option (DescriptorBucket File))

def slot (fd : Nat) : Fin fdsPerBucket :=
  ⟨fd % fdsPerBucket, Nat.mod_lt fd (by decide)⟩

structure World (File : Type) where
  refs : File → Nat
  table : FDTable File

def FDTable.empty (File : Type) : FDTable File :=
  ⟨Bitmap.new 65535, []⟩

def FDTable.get (f : FDTable File) (fd : Nat) : Option (Descriptor File) :=
  match f.slice[fd / fdsPerBucket]? with
  | some (some bucket) => bucket (slot fd)
  | _ => none

def FDTable.grown (f : FDTable File) (bucketN : Nat) : List (Option (DescriptorBucket File)) :=
  let length := f.slice.length
  if length ≤ bucketN then
    let newLen :=
      if bucketN + 1 < 2 * length then
        if MaxFdLimit < 2 * length then MaxFdLimit else 2 * length
      else
        bucketN + 1
    f.slice ++ List.replicate (newLen - length) none
  else
    f.slice

def FDTable.swap (f : FDTable File) (fd : Nat) (desc : Option (Descriptor File)) : FDTable File :=
  let bucketN := fd / fdsPerBucket
  let slice := f.grown bucketN
  let bucket : DescriptorBucket File := ((slice[bucketN]?).getD none).getD fun _ => none
  { f with slice := slice.set bucketN (some (Function.update bucket (slot fd) desc)) }

def int32 (x : Int) : Int :=
  x.bmod (2 ^ 32)

def uint32 (x : Int) : Nat :=
  (x % 2 ^ 32).toNat

namespace World

variable (w : World File)

/-- A file that has no reference is gone: to take or to drop one is a panic. -/
def incRef (file : File) : Option (World File) :=
  if w.refs file = 0 then none
  else some { w with refs := Function.update w.refs file (w.refs file + 1) }

def decRef (file : File) : Option (World File) :=
  if w.refs file = 0 then none
  else some { w with refs := Function.update w.refs file (w.refs file - 1) }

def set (fd : Nat) (file : Option File) (flags : FDFlags) : Option (World File × Option File) :=
  let orig := (w.table.get fd).map Descriptor.file
  let w : World File := { w with table := w.table.swap fd (file.map (⟨·, flags⟩)) }
  match file with
  | none => some (w, orig)
  | some file =>
    if orig = some file then
      some (w, none)
    else
      match w.incRef file with
      | none => none
      | some w => some (w, orig)

def addBit (fd : Nat) : World File :=
  { w with table := { w.table with fdBitmap := w.table.fdBitmap.add fd } }

def removeBit (fd : Nat) : Option (World File) :=
  match w.table.fdBitmap.remove fd with
  | none => none
  | some bitmap => some { w with table := { w.table with fdBitmap := bitmap } }

/-- An entry that is installed where the bitmap has none; one in the table is a panic. -/
def install (fd : Nat) (file : File) (flags : FDFlags) : Option (World File) :=
  match w.set fd (some file) flags with
  | some (w, none) => some w
  | _ => none

def newFDsLoop (flags : FDFlags) (stop : Nat) :
    List File → Nat → Nat → World File → Option (World File × List Nat)
  | [], _, _, w => some (w, [])
  | file :: files, minFD, max, w =>
    let (fd, max) :=
      match w.table.fdBitmap.firstZero minFD with
      | some fd => (fd, max)
      | none => (max, max + 1)
    if stop ≤ fd then
      some (w, [])
    else
      let max := if fd = max then fd + 1 else max
      match (w.addBit fd).install fd file flags with
      | none => none
      | some w =>
        match newFDsLoop flags stop files fd max w with
        | none => none
        | some (w, fds) => some (w, fd :: fds)

/-- Unwinding: the entries are cleared, and what `set` returns is dropped. -/
def unwind : List Nat → World File → Option (World File)
  | [], w => some w
  | fd :: fds, w =>
    match w.set fd none ⟨false⟩ with
    | none => none
    | some (w, _) =>
      match w.removeBit fd with
      | none => none
      | some w => unwind fds w

def decRefs : List File → World File → Option (World File)
  | [], w => some w
  | file :: files, w =>
    match w.decRef file with
    | none => none
    | some w => decRefs files w

def limit (maxFDLimit : Nat) (cur : Option UInt64) : Nat :=
  match cur with
  | none => maxFDLimit
  | some cur => if cur.toNat ≠ 2 ^ 64 - 1 ∧ cur.toNat < maxFDLimit then cur.toNat else maxFDLimit

def newFDs (minFD : Int) (files : List File) (flags : FDFlags) (maxFDLimit : Nat)
    (cur : Option UInt64) : Option (World File × Except Errno (List Nat)) :=
  let stop := limit maxFDLimit cur
  if minFD < 0 then
    some (w, .error .EINVAL)
  else if (stop : Int) < int32 (minFD + int32 files.length) then
    some (w, .error .EMFILE)
  else
    let max := if w.table.fdBitmap.isEmpty then 0 else w.table.fdBitmap.maximum + 1
    let max := if max < minFD.toNat then minFD.toNat else max
    match newFDsLoop flags stop files minFD.toNat max w with
    | none => none
    | some (w, fds) =>
      if fds.length < files.length then
        match unwind fds w with
        | none => none
        | some w =>
          match decRefs (files.take fds.length) w with
          | none => none
          | some w => some (w, .error .EMFILE)
      else
        some (w, .ok fds)

def newFDAt (fd : Int) (file : File) (flags : FDFlags) (maxFDLimit : Nat) (cur : Option UInt64) :
    Option (World File × Except Errno (Option File)) :=
  if fd < 0 then
    some (w, .error .EBADF)
  else if (maxFDLimit : Int) ≤ fd then
    some (w, .error .EMFILE)
  else if cur.any fun cur => cur.toNat ≠ 2 ^ 64 - 1 ∧ cur.toNat ≤ fd.toNat then
    some (w, .error .EMFILE)
  else
    match w.set fd.toNat (some file) flags with
    | none => none
    | some (w, none) => some (w.addBit fd.toNat, .ok none)
    | some (w, some df) => some (w, .ok (some df))

def setFlags (fd : Int) (flags : FDFlags) : Option (World File × Except Errno Unit) :=
  if fd < 0 then
    some (w, .error .EBADF)
  else
    match w.table.get fd.toNat with
    | none => some (w, .error .EBADF)
    | some d =>
      match w.install fd.toNat d.file flags with
      | none => none
      | some w => some (w, .ok ())

/-- The loop of `SetFlagsForRange`, for as many turns as the bitmap has bits. -/
def setFlagsLoop (endFd : Nat) (flags : FDFlags) : Nat → Nat → World File → Option (World File)
  | 0, _, _ => none
  | turns + 1, start, w =>
    match w.table.fdBitmap.firstOne start with
    | none => some w
    | some fd =>
      if fd ≤ endFd then
        match w.set fd ((w.table.get fd).map Descriptor.file) flags with
        | some (w, none) => setFlagsLoop endFd flags turns (fd + 1) w
        | _ => none
      else
        some w

def setFlagsForRange (startFd endFd : Int) (flags : FDFlags) : Option (World File × Except Errno Unit) :=
  if startFd < 0 ∨ endFd < startFd then
    some (w, .error .EBADF)
  else
    match setFlagsLoop endFd.toNat flags (w.table.fdBitmap.bitBlock.length * 64 + 1) startFd.toNat w with
    | none => none
    | some w => some (w, .ok ())

/-- An entry is cleared, and its bit if there was a file. -/
def zap (fd : Nat) : Option (World File × Option File) :=
  match w.set fd none ⟨false⟩ with
  | none => none
  | some (w, none) => some (w, none)
  | some (w, some df) =>
    match w.removeBit fd with
    | none => none
    | some w => some (w, some df)

def remove (fd : Int) : Option (World File × Option File) :=
  if fd < 0 then some (w, none) else w.zap fd.toNat

def removeNextInRange (startFd endFd : Int) : Option (World File × Nat × Option File) :=
  if startFd < 0 ∨ endFd < startFd then
    some (w, MaxFdLimit, none)
  else
    match w.table.fdBitmap.firstOne startFd.toNat with
    | none => some (w, MaxFdLimit, none)
    | some fd =>
      if endFd < fd then
        some (w, MaxFdLimit, none)
      else
        match w.zap fd with
        | none => none
        | some (w, df) => some (w, fd, df)

/-- One call of `forEachUpTo`, for a function that keeps a state of its own: the file is held while
the function runs. -/
def visitHeld {τ : Type} (visit : World File × τ → Nat → Descriptor File → Option (World File × τ))
    (s : World File × τ) (fd : Nat) : Option (World File × τ) :=
  match s.1.table.get fd with
  | none => some s
  | some d =>
    -- `TryIncRef` fails for a file that is gone.
    match s.1.incRef d.file with
    | none => some s
    | some held =>
      match visit (held, s.2) fd d with
      | none => none
      | some (w, own) =>
        match w.decRef d.file with
        | none => none
        | some released => some (released, own)

def forEachUpTo {τ : Type} (maxFd : Nat)
    (visit : World File × τ → Nat → Descriptor File → Option (World File × τ))
    (s : World File × τ) : Option (World File × τ) :=
  forEach (fun s => s.1.table.fdBitmap) maxFd (visitHeld visit) s

def removeIfVisit (cond : File → FDFlags → Bool) (s : World File × List File) (fd : Nat)
    (d : Descriptor File) : Option (World File × List File) :=
  if cond d.file d.flags then
    match s.1.zap fd with
    | none => none
    | some (w, none) => some (w, s.2)
    | some (w, some df) => some (w, s.2 ++ [df])
  else
    some s

def removeIf (cond : File → FDFlags → Bool) : Option (World File) :=
  match forEachUpTo MaxFdLimit (removeIfVisit cond) (w, []) with
  | none => none
  | some (w, files) => decRefs files w

/-- The call of `Fork`: the references are shared with the clone. -/
def forkVisit (s : World File × FDTable File) (fd : Nat) (d : Descriptor File) :
    Option (World File × FDTable File) :=
  match (World.mk s.1.refs s.2).install fd d.file d.flags with
  | none => none
  | some clone => some (⟨clone.refs, s.1.table⟩, (clone.addBit fd).table)

def fork (maxFd : Int) : Option (World File × FDTable File) :=
  forEachUpTo (uint32 maxFd) forkVisit (w, FDTable.empty File)

def saveVisit (s : World File × List (Nat × Descriptor File)) (fd : Nat) (d : Descriptor File) :
    Option (World File × List (Nat × Descriptor File)) :=
  some (s.1, s.2 ++ [(fd, d)])

def saveDescriptorTable : Option (World File × List (Nat × Descriptor File)) :=
  forEachUpTo MaxFdLimit saveVisit (w, [])

/-- The entries of the saved map, in the order in which the runtime gives them. -/
def loadEntries : List (Nat × Descriptor File) → World File → Option (World File)
  | [], w => some w
  | (fd, d) :: rest, w =>
    match w.install fd d.file d.flags with
    | none => none
    | some w =>
      match (w.addBit fd).decRef d.file with
      | none => none
      | some w => loadEntries rest w

def loadDescriptorTable (entries : List (Nat × Descriptor File)) : Option (World File) :=
  loadEntries entries ⟨w.refs, FDTable.empty File⟩

end World

/-! ## All tables -/

structure Sentry (File : Type) where
  refs : File → Nat
  /-- References that are held outside of the tables. -/
  held : File → Nat
  tables : List (FDTable File)
  panicked : Bool

inductive Event (File : Type) where
  /-- A file is opened, or whoever holds a reference takes another. -/
  | acquire (file : File)
  | release (file : File)
  | newFDTable
  | newFDs (i : Nat) (minFD : Int) (files : List File) (flags : FDFlags) (maxFDLimit : Nat) (cur : Option UInt64)
  | newFDAt (i : Nat) (fd : Int) (file : File) (flags : FDFlags) (maxFDLimit : Nat) (cur : Option UInt64)
  | setFlags (i : Nat) (fd : Int) (flags : FDFlags)
  | setFlagsForRange (i : Nat) (startFd endFd : Int) (flags : FDFlags)
  | remove (i : Nat) (fd : Int)
  | removeIf (i : Nat) (cond : File → FDFlags → Bool)
  | removeNextInRange (i : Nat) (startFd endFd : Int)
  | fork (i : Nat) (maxFd : Int)
  /-- The table is saved, and loaded from the entries in this order. -/
  | saveLoad (i : Nat) (order : List (Nat × Descriptor File))

namespace Sentry

variable (s : Sentry File)

def init (File : Type) : Sentry File :=
  ⟨fun _ => 0, fun _ => 0, [], false⟩

def onTable (i : Nat) (op : World File → Option (World File × List File)) : Option (Sentry File) :=
  match s.tables[i]? with
  | none => none
  | some table =>
    match op ⟨s.refs, table⟩ with
    | none => some { s with panicked := true }
    | some (w, returned) => some { s with
        refs := w.refs
        held := fun file => s.held file + returned.count file
        tables := s.tables.set i w.table }

def isInt32 (x : Int) : Bool :=
  -2 ^ 31 ≤ x ∧ x < 2 ^ 31

/-- What the callers see to: the files that are installed are held, the numbers are 32-bit numbers
and the limit of the kernel is a possible one. -/
def allowed : Event File → Bool
  | .newFDs _ minFD files _ maxFDLimit _ =>
    isInt32 minFD && decide (maxFDLimit ≤ MaxFdLimit) && files.all fun file => 0 < s.held file
  | .newFDAt _ fd file _ maxFDLimit _ =>
    isInt32 fd && decide (maxFDLimit ≤ MaxFdLimit) && decide (0 < s.held file)
  | .release file => 0 < s.held file
  | .setFlags _ fd _ => isInt32 fd
  | .setFlagsForRange _ startFd endFd _ => isInt32 startFd && isInt32 endFd
  | .remove _ fd => isInt32 fd
  | .removeNextInRange _ startFd endFd => isInt32 startFd && isInt32 endFd
  | .fork _ maxFd => isInt32 maxFd
  | _ => true

def perform : Event File → Option (Sentry File)
  | .acquire file => some { s with
      refs := Function.update s.refs file (s.refs file + 1)
      held := Function.update s.held file (s.held file + 1) }
  | .release file => some { s with
      refs := Function.update s.refs file (s.refs file - 1)
      held := Function.update s.held file (s.held file - 1) }
  | .newFDTable => some { s with tables := s.tables ++ [FDTable.empty File] }
  | .newFDs i minFD files flags maxFDLimit cur =>
    s.onTable i fun w => (w.newFDs minFD files flags maxFDLimit cur).map fun r => (r.1, [])
  | .newFDAt i fd file flags maxFDLimit cur =>
    s.onTable i fun w => (w.newFDAt fd file flags maxFDLimit cur).map fun r =>
      (r.1, match r.2 with
        | .ok df => df.toList
        | .error _ => [])
  | .setFlags i fd flags => s.onTable i fun w => (w.setFlags fd flags).map fun r => (r.1, [])
  | .setFlagsForRange i startFd endFd flags =>
    s.onTable i fun w => (w.setFlagsForRange startFd endFd flags).map fun r => (r.1, [])
  | .remove i fd => s.onTable i fun w => (w.remove fd).map fun r => (r.1, r.2.toList)
  | .removeIf i cond => s.onTable i fun w => (w.removeIf cond).map fun r => (r, [])
  | .removeNextInRange i startFd endFd =>
    s.onTable i fun w => (w.removeNextInRange startFd endFd).map fun r => (r.1, r.2.2.toList)
  | .fork i maxFd =>
    match s.tables[i]? with
    | none => none
    | some table =>
      match World.fork ⟨s.refs, table⟩ maxFd with
      | none => some { s with panicked := true }
      | some (w, clone) => some { s with
          refs := w.refs
          tables := s.tables.set i w.table ++ [clone] }
  | .saveLoad i order =>
    match s.tables[i]? with
    | none => none
    | some table =>
      match World.saveDescriptorTable ⟨s.refs, table⟩ with
      | none => some { s with panicked := true }
      | some (w, entries) =>
        if order.isPerm entries then
          match w.loadDescriptorTable order with
          | none => some { s with panicked := true }
          | some w => some { s with refs := w.refs, tables := s.tables.set i w.table }
        else
          none

def step (s : Sentry File) (event : Event File) : Option (Sentry File) :=
  if s.panicked = false ∧ s.allowed event then s.perform event else none

end Sentry

end BVisor.Descriptors
