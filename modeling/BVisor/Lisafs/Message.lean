import BVisor.Data.Packed

/-! The messages of the lisafs protocol with a hand-written codec: their sizes, the bytes they are
marshalled to and the checked unmarshalling of bytes that the peer controls. Fixed-size parts use
the generated codecs. Strings are byte strings. -/

namespace BVisor.Lisafs

open BVisor.Data BVisor.Data.Packed

abbrev Bytes := List UInt8

variable {α β γ : Type}

/-- What `CheckedUnmarshal` returns: the bytes left over, and the receiver if the message was
accepted. -/
inductive Outcome (α : Type) where
  | rejected (rest : Bytes)
  | accepted (value : α) (rest : Bytes)
deriving DecidableEq

/-- A call of `CheckedUnmarshal`; an access out of range is `none`. -/
abbrev Decoded (α : Type) := Option (Outcome α)

/-- The rejection of the whole message `src` when a part of it is rejected. -/
def Decoded.orReject (part : Decoded α) (src : Bytes) (next : α → Bytes → Decoded β) : Decoded β :=
  match part with
  | none => none
  | some (.rejected _) => some (.rejected src)
  | some (.accepted value rest) => next value rest

/-! Slices and the generated codecs. -/

def cut (count : Nat) (src : Bytes) : Option (Bytes × Bytes) :=
  if count ≤ src.length then some (src.take count, src.drop count) else none

/-- The generated `UnmarshalUnsafe`, which does not check that the bytes are there. -/
def unmarshalUnsafe (packed : Packed α) (src : Bytes) : Option (α × Bytes) :=
  match cut packed.size src with
  | none => none
  | some (bytes, rest) => some (packed.decode bytes, rest)

/-- The generated `UnmarshalUnsafe…Slice` for `count` elements. -/
def unmarshalUnsafeSlice (packed : Packed α) (count : Nat) (src : Bytes) : Option (List α × Bytes) :=
  match cut (count * packed.size) src with
  | none => none
  | some (bytes, rest) => some (packed.decodeAll count bytes, rest)

def checkedUnmarshal (packed : Packed α) (src : Bytes) : Decoded α :=
  if packed.size > src.length then some (.rejected src)
  else
    match unmarshalUnsafe packed src with
    | none => none
    | some (value, rest) => some (.accepted value rest)

/-! Strings and arrays. -/

abbrev SizedString := Bytes

def SizedString.sizeBytes (s : SizedString) : Nat := uint16.size + s.length

/-- The length is cut to 16 bits and as many bytes are copied. -/
def SizedString.marshalBytes (s : SizedString) : Bytes :=
  let strLen := UInt16.ofNat s.length
  uint16.encode strLen ++ s.take strLen.toNat

def SizedString.checkedUnmarshal (src : Bytes) : Decoded SizedString :=
  Decoded.orReject (Lisafs.checkedUnmarshal uint16 src) src fun strLen srcRemain =>
    if srcRemain.length < strLen.toNat then some (.rejected src)
    else
      match cut strLen.toNat srcRemain with
      | none => none
      | some (text, rest) => some (.accepted text rest)

abbrev StringArray := List SizedString

def StringArray.sizeBytes (s : StringArray) : Nat :=
  uint16.size + (s.map SizedString.sizeBytes).sum

def StringArray.marshalBytes (s : StringArray) : Bytes :=
  uint16.encode (UInt16.ofNat s.length) ++ s.flatMap SizedString.marshalBytes

/-- `count` elements one after the other; a rejected element rejects the whole of `src`. -/
def unmarshalEach (element : Bytes → Decoded α) (src : Bytes) : Nat → Bytes → Decoded (List α)
  | 0, srcRemain => some (.accepted [] srcRemain)
  | count + 1, srcRemain =>
    Decoded.orReject (element srcRemain) src fun item srcRemain =>
      Decoded.orReject (unmarshalEach element src count srcRemain) src fun items rest =>
        some (.accepted (item :: items) rest)

def StringArray.checkedUnmarshal (src : Bytes) : Decoded StringArray :=
  Decoded.orReject (Lisafs.checkedUnmarshal uint16 src) src fun arrLen srcRemain =>
    unmarshalEach SizedString.checkedUnmarshal src arrLen.toNat srcRemain

/-! The two families of `CheckedUnmarshal`. Both begin with a check that the bytes have room for
the receiver after its variable parts have been emptied, which takes `minimum` bytes. -/

def unmarshalThen (minimum : Nat) (fixed : Packed α) (part : Bytes → Decoded β)
    (make : α → β → γ) (src : Bytes) : Decoded γ :=
  if minimum > src.length then some (.rejected src)
  else
    match unmarshalUnsafe fixed src with
    | none => none
    | some (fields, srcRemain) =>
      Decoded.orReject (part srcRemain) src fun last rest =>
        some (.accepted (make fields last) rest)

def unmarshalCounted (minimum : Nat) (fixed : Packed α) (element : Packed β)
    (make : α → List β → γ) (src : Bytes) : Decoded γ :=
  if minimum > src.length then some (.rejected src)
  else
    match unmarshalUnsafe (pair fixed uint16) src with
    | none => none
    | some ((fields, count), srcRemain) =>
      if count.toNat * element.size > srcRemain.length then some (.rejected src)
      else
        match unmarshalUnsafeSlice element count.toNat srcRemain with
        | none => none
        | some (items, rest) => some (.accepted (make fields items) rest)

def unmarshalTwoStrings (src : Bytes) : Decoded (SizedString × SizedString) :=
  Decoded.orReject (SizedString.checkedUnmarshal src) src fun first srcRemain =>
    Decoded.orReject (SizedString.checkedUnmarshal srcRemain) src fun second rest =>
      some (.accepted (first, second) rest)

/-! Packed structs. -/

abbrev FDID := UInt64
abbrev UID := UInt32
abbrev GID := UInt32
abbrev MID := UInt16

structure StatxTimestamp where
  sec : Int64
  nsec : UInt32
deriving DecidableEq

def StatxTimestamp.packed : Packed StatxTimestamp :=
  record (pair uint64 (pair uint32 (padding 4)))
    (fun time => (time.sec.toUInt64, time.nsec, ()))
    (fun fields => { sec := fields.1.toInt64, nsec := fields.2.1 })
    (fun time => by simp only [Int64.toInt64_toUInt64])

structure Statx where
  mask : UInt32
  blksize : UInt32
  attributes : UInt64
  nlink : UInt32
  uid : UInt32
  gid : UInt32
  mode : UInt16
  ino : UInt64
  size : UInt64
  blocks : UInt64
  attributesMask : UInt64
  atime : StatxTimestamp
  btime : StatxTimestamp
  ctime : StatxTimestamp
  mtime : StatxTimestamp
  rdevMajor : UInt32
  rdevMinor : UInt32
  devMajor : UInt32
  devMinor : UInt32
deriving DecidableEq

def Statx.packed : Packed Statx :=
  record
    (pair (pair uint32 (pair uint32 (pair uint64 (pair uint32 (pair uint32 (pair uint32 (pair
        uint16 (padding 2))))))))
      (pair (pair uint64 (pair uint64 (pair uint64 uint64)))
        (pair (pair StatxTimestamp.packed (pair StatxTimestamp.packed (pair StatxTimestamp.packed
          StatxTimestamp.packed)))
          (pair uint32 (pair uint32 (pair uint32 uint32))))))
    (fun s => ((s.mask, s.blksize, s.attributes, s.nlink, s.uid, s.gid, s.mode, ()),
      (s.ino, s.size, s.blocks, s.attributesMask),
      (s.atime, s.btime, s.ctime, s.mtime),
      s.rdevMajor, s.rdevMinor, s.devMajor, s.devMinor))
    (fun ((mask, blksize, attributes, nlink, uid, gid, mode, _),
        (ino, size, blocks, attributesMask), (atime, btime, ctime, mtime),
        rdevMajor, rdevMinor, devMajor, devMinor) =>
      { mask, blksize, attributes, nlink, uid, gid, mode, ino, size, blocks, attributesMask,
        atime, btime, ctime, mtime, rdevMajor, rdevMinor, devMajor, devMinor })
    (fun _ => rfl)

structure Inode where
  controlFD : FDID
  stat : Statx
deriving DecidableEq

def Inode.packed : Packed Inode :=
  record (pair uint64 Statx.packed) (fun inode => (inode.controlFD, inode.stat))
    (fun fields => { controlFD := fields.1, stat := fields.2 }) (fun _ => rfl)

structure CreateCommon where
  dirFD : FDID
  uid : UID
  gid : GID
  mode : UInt16
deriving DecidableEq

def CreateCommon.packed : Packed CreateCommon :=
  record (pair uint64 (pair uint32 (pair uint32 (pair uint16 (padding 6)))))
    (fun common => (common.dirFD, common.uid, common.gid, common.mode, ()))
    (fun (dirFD, uid, gid, mode, _) => { dirFD, uid, gid, mode }) (fun _ => rfl)

/-! Messages of fixed fields and one string, or an array of strings. -/

structure WalkReq where
  dirFD : FDID
  path : StringArray
deriving DecidableEq

def WalkReq.sizeBytes (w : WalkReq) : Nat := uint64.size + w.path.sizeBytes

def WalkReq.marshalBytes (w : WalkReq) : Bytes := uint64.encode w.dirFD ++ w.path.marshalBytes

def WalkReq.checkedUnmarshal (w : WalkReq) : Bytes → Decoded WalkReq :=
  unmarshalThen { w with path := [] }.sizeBytes uint64 StringArray.checkedUnmarshal
    fun dirFD path => { dirFD, path }

structure OpenCreateAtReq where
  createCommon : CreateCommon
  flags : UInt32
  name : SizedString
deriving DecidableEq

def OpenCreateAtReq.sizeBytes (o : OpenCreateAtReq) : Nat :=
  CreateCommon.packed.size + uint32.size + o.name.sizeBytes

def OpenCreateAtReq.marshalBytes (o : OpenCreateAtReq) : Bytes :=
  CreateCommon.packed.encode o.createCommon ++ uint32.encode o.flags ++ o.name.marshalBytes

def OpenCreateAtReq.checkedUnmarshal (o : OpenCreateAtReq) : Bytes → Decoded OpenCreateAtReq :=
  unmarshalThen { o with name := [] }.sizeBytes (pair CreateCommon.packed uint32)
    SizedString.checkedUnmarshal fun (createCommon, flags) name => { createCommon, flags, name }

structure MkdirAtReq where
  createCommon : CreateCommon
  name : SizedString
deriving DecidableEq

def MkdirAtReq.sizeBytes (m : MkdirAtReq) : Nat := CreateCommon.packed.size + m.name.sizeBytes

def MkdirAtReq.marshalBytes (m : MkdirAtReq) : Bytes :=
  CreateCommon.packed.encode m.createCommon ++ m.name.marshalBytes

def MkdirAtReq.checkedUnmarshal (m : MkdirAtReq) : Bytes → Decoded MkdirAtReq :=
  unmarshalThen { m with name := [] }.sizeBytes CreateCommon.packed SizedString.checkedUnmarshal
    fun createCommon name => { createCommon, name }

structure MknodAtReq where
  createCommon : CreateCommon
  minor : UInt32
  major : UInt32
  name : SizedString
deriving DecidableEq

def MknodAtReq.sizeBytes (m : MknodAtReq) : Nat :=
  CreateCommon.packed.size + uint32.size + uint32.size + m.name.sizeBytes

def MknodAtReq.marshalBytes (m : MknodAtReq) : Bytes :=
  CreateCommon.packed.encode m.createCommon ++ uint32.encode m.minor ++ uint32.encode m.major ++
    m.name.marshalBytes

def MknodAtReq.checkedUnmarshal (m : MknodAtReq) : Bytes → Decoded MknodAtReq :=
  unmarshalThen { m with name := [] }.sizeBytes (pair (pair CreateCommon.packed uint32) uint32)
    SizedString.checkedUnmarshal
    fun ((createCommon, minor), major) name => { createCommon, minor, major, name }

structure LinkAtReq where
  dirFD : FDID
  target : FDID
  name : SizedString
deriving DecidableEq

def LinkAtReq.sizeBytes (l : LinkAtReq) : Nat := uint64.size + uint64.size + l.name.sizeBytes

def LinkAtReq.marshalBytes (l : LinkAtReq) : Bytes :=
  uint64.encode l.dirFD ++ uint64.encode l.target ++ l.name.marshalBytes

def LinkAtReq.checkedUnmarshal (l : LinkAtReq) : Bytes → Decoded LinkAtReq :=
  unmarshalThen { l with name := [] }.sizeBytes (pair uint64 uint64) SizedString.checkedUnmarshal
    fun (dirFD, target) name => { dirFD, target, name }

structure BindAtReq where
  createCommon : CreateCommon
  sockType : UInt32
  name : SizedString
deriving DecidableEq

def BindAtReq.sizeBytes (b : BindAtReq) : Nat :=
  CreateCommon.packed.size + uint32.size + b.name.sizeBytes

def BindAtReq.marshalBytes (b : BindAtReq) : Bytes :=
  CreateCommon.packed.encode b.createCommon ++ uint32.encode b.sockType ++ b.name.marshalBytes

def BindAtReq.checkedUnmarshal (b : BindAtReq) : Bytes → Decoded BindAtReq :=
  unmarshalThen { b with name := [] }.sizeBytes (pair CreateCommon.packed uint32)
    SizedString.checkedUnmarshal
    fun (createCommon, sockType) name => { createCommon, sockType, name }

structure UnlinkAtReq where
  dirFD : FDID
  flags : UInt32
  name : SizedString
deriving DecidableEq

def UnlinkAtReq.sizeBytes (u : UnlinkAtReq) : Nat := uint64.size + uint32.size + u.name.sizeBytes

def UnlinkAtReq.marshalBytes (u : UnlinkAtReq) : Bytes :=
  uint64.encode u.dirFD ++ uint32.encode u.flags ++ u.name.marshalBytes

def UnlinkAtReq.checkedUnmarshal (u : UnlinkAtReq) : Bytes → Decoded UnlinkAtReq :=
  unmarshalThen { u with name := [] }.sizeBytes (pair uint64 uint32) SizedString.checkedUnmarshal
    fun (dirFD, flags) name => { dirFD, flags, name }

structure Dirent64 where
  ino : UInt64
  devMinor : UInt32
  devMajor : UInt32
  off : UInt64
  type : UInt8
  name : SizedString
deriving DecidableEq

def Dirent64.sizeBytes (d : Dirent64) : Nat :=
  uint64.size + uint32.size + uint32.size + uint64.size + uint8.size + d.name.sizeBytes

def Dirent64.marshalBytes (d : Dirent64) : Bytes :=
  uint64.encode d.ino ++ uint32.encode d.devMinor ++ uint32.encode d.devMajor ++
    uint64.encode d.off ++ uint8.encode d.type ++ d.name.marshalBytes

def Dirent64.checkedUnmarshal (d : Dirent64) : Bytes → Decoded Dirent64 :=
  unmarshalThen { d with name := [] }.sizeBytes
    (pair (pair (pair (pair uint64 uint32) uint32) uint64) uint8) SizedString.checkedUnmarshal
    fun ((((ino, devMinor), devMajor), off), type) name =>
      { ino, devMinor, devMajor, off, type, name }

structure FGetXattrReq where
  fd : FDID
  bufSize : UInt32
  name : SizedString
deriving DecidableEq

def FGetXattrReq.sizeBytes (g : FGetXattrReq) : Nat :=
  uint64.size + uint32.size + g.name.sizeBytes

def FGetXattrReq.marshalBytes (g : FGetXattrReq) : Bytes :=
  uint64.encode g.fd ++ uint32.encode g.bufSize ++ g.name.marshalBytes

def FGetXattrReq.checkedUnmarshal (g : FGetXattrReq) : Bytes → Decoded FGetXattrReq :=
  unmarshalThen { g with name := [] }.sizeBytes (pair uint64 uint32) SizedString.checkedUnmarshal
    fun (fd, bufSize) name => { fd, bufSize, name }

structure FRemoveXattrReq where
  fd : FDID
  name : SizedString
deriving DecidableEq

def FRemoveXattrReq.sizeBytes (r : FRemoveXattrReq) : Nat := uint64.size + r.name.sizeBytes

def FRemoveXattrReq.marshalBytes (r : FRemoveXattrReq) : Bytes :=
  uint64.encode r.fd ++ r.name.marshalBytes

def FRemoveXattrReq.checkedUnmarshal (r : FRemoveXattrReq) : Bytes → Decoded FRemoveXattrReq :=
  unmarshalThen { r with name := [] }.sizeBytes uint64 SizedString.checkedUnmarshal fun fd name => { fd, name }

/-! Messages of fixed fields and two strings. -/

structure SymlinkAtReq where
  dirFD : FDID
  uid : UID
  gid : GID
  name : SizedString
  target : SizedString
deriving DecidableEq

def SymlinkAtReq.sizeBytes (s : SymlinkAtReq) : Nat :=
  uint64.size + uint32.size + uint32.size + s.name.sizeBytes + s.target.sizeBytes

def SymlinkAtReq.marshalBytes (s : SymlinkAtReq) : Bytes :=
  uint64.encode s.dirFD ++ uint32.encode s.uid ++ uint32.encode s.gid ++ s.name.marshalBytes ++
    s.target.marshalBytes

def SymlinkAtReq.checkedUnmarshal (s : SymlinkAtReq) : Bytes → Decoded SymlinkAtReq :=
  unmarshalThen { s with name := [], target := [] }.sizeBytes (pair (pair uint64 uint32) uint32)
    unmarshalTwoStrings
    fun ((dirFD, uid), gid) (name, target) => { dirFD, uid, gid, name, target }

structure RenameAtReq where
  oldDir : FDID
  newDir : FDID
  oldName : SizedString
  newName : SizedString
deriving DecidableEq

def RenameAtReq.sizeBytes (r : RenameAtReq) : Nat :=
  uint64.size + uint64.size + r.oldName.sizeBytes + r.newName.sizeBytes

def RenameAtReq.marshalBytes (r : RenameAtReq) : Bytes :=
  uint64.encode r.oldDir ++ uint64.encode r.newDir ++ r.oldName.marshalBytes ++ r.newName.marshalBytes

def RenameAtReq.checkedUnmarshal (r : RenameAtReq) : Bytes → Decoded RenameAtReq :=
  unmarshalThen { r with oldName := [], newName := [] }.sizeBytes (pair uint64 uint64)
    unmarshalTwoStrings
    fun (oldDir, newDir) (oldName, newName) => { oldDir, newDir, oldName, newName }

structure FSetXattrReq where
  fd : FDID
  flags : UInt32
  name : SizedString
  value : SizedString
deriving DecidableEq

def FSetXattrReq.sizeBytes (s : FSetXattrReq) : Nat :=
  uint64.size + uint32.size + s.name.sizeBytes + s.value.sizeBytes

def FSetXattrReq.marshalBytes (s : FSetXattrReq) : Bytes :=
  uint64.encode s.fd ++ uint32.encode s.flags ++ s.name.marshalBytes ++ s.value.marshalBytes

def FSetXattrReq.checkedUnmarshal (s : FSetXattrReq) : Bytes → Decoded FSetXattrReq :=
  unmarshalThen { s with name := [], value := [] }.sizeBytes (pair uint64 uint32)
    unmarshalTwoStrings fun (fd, flags) (name, value) => { fd, flags, name, value }

/-! Messages with an array of elements of a fixed size. -/

structure MountResp where
  root : Inode
  maxMessageSize : UInt32
  supportedMs : List MID
deriving DecidableEq

def MountResp.sizeBytes (m : MountResp) : Nat :=
  Inode.packed.size + uint32.size + uint16.size + m.supportedMs.length * uint16.size

def MountResp.marshalBytes (m : MountResp) : Bytes :=
  Inode.packed.encode m.root ++ uint32.encode m.maxMessageSize ++
    uint16.encode (UInt16.ofNat m.supportedMs.length) ++ uint16.encodeAll m.supportedMs

def MountResp.checkedUnmarshal (m : MountResp) : Bytes → Decoded MountResp :=
  unmarshalCounted { m with supportedMs := [] }.sizeBytes (pair Inode.packed uint32) uint16
    fun (root, maxMessageSize) supportedMs => { root, maxMessageSize, supportedMs }

structure WalkResp where
  status : UInt8
  inodes : List Inode
deriving DecidableEq

def WalkResp.sizeBytes (w : WalkResp) : Nat :=
  uint8.size + uint16.size + w.inodes.length * Inode.packed.size

def WalkResp.marshalBytes (w : WalkResp) : Bytes :=
  uint8.encode w.status ++ uint16.encode (UInt16.ofNat w.inodes.length) ++ Inode.packed.encodeAll w.inodes

def WalkResp.checkedUnmarshal (w : WalkResp) : Bytes → Decoded WalkResp :=
  unmarshalCounted { w with inodes := [] }.sizeBytes uint8 Inode.packed fun status inodes => { status, inodes }

structure WalkStatResp where
  stats : List Statx
deriving DecidableEq

def WalkStatResp.sizeBytes (w : WalkStatResp) : Nat :=
  uint16.size + w.stats.length * Statx.packed.size

def WalkStatResp.marshalBytes (w : WalkStatResp) : Bytes :=
  uint16.encode (UInt16.ofNat w.stats.length) ++ Statx.packed.encodeAll w.stats

def WalkStatResp.checkedUnmarshal (w : WalkStatResp) : Bytes → Decoded WalkStatResp :=
  unmarshalCounted { w with stats := [] }.sizeBytes (padding 0) Statx.packed fun _ stats => { stats }

abbrev FdArray := List FDID

def FdArray.sizeBytes (f : FdArray) : Nat := uint16.size + f.length * uint64.size

def FdArray.marshalBytes (f : FdArray) : Bytes :=
  uint16.encode (UInt16.ofNat f.length) ++ uint64.encodeAll f

/-- The receiver is cut to no elements before its size is taken. -/
def FdArray.checkedUnmarshal (_ : FdArray) : Bytes → Decoded FdArray :=
  unmarshalCounted (FdArray.sizeBytes []) (padding 0) uint64 fun _ fds => fds

/-! Messages with a single part. -/

structure CloseReq where
  fds : FdArray
deriving DecidableEq

structure FsyncReq where
  fds : FdArray
deriving DecidableEq

structure ReadLinkAtResp where
  target : SizedString
deriving DecidableEq

structure AcceptResp where
  peerAddr : SizedString
deriving DecidableEq

structure FGetXattrResp where
  value : SizedString
deriving DecidableEq

structure FListXattrResp where
  xattrs : StringArray
deriving DecidableEq

def unmarshalOnly (part : Bytes → Decoded α) (make : α → β) (src : Bytes) : Decoded β :=
  match part src with
  | none => none
  | some (.rejected rest) => some (.rejected rest)
  | some (.accepted value rest) => some (.accepted (make value) rest)

def CloseReq.checkedUnmarshal (c : CloseReq) : Bytes → Decoded CloseReq :=
  unmarshalOnly c.fds.checkedUnmarshal fun fds => { fds }

def FsyncReq.checkedUnmarshal (f : FsyncReq) : Bytes → Decoded FsyncReq :=
  unmarshalOnly f.fds.checkedUnmarshal fun fds => { fds }

def ReadLinkAtResp.checkedUnmarshal : Bytes → Decoded ReadLinkAtResp :=
  unmarshalOnly SizedString.checkedUnmarshal fun target => { target }

def AcceptResp.checkedUnmarshal : Bytes → Decoded AcceptResp :=
  unmarshalOnly SizedString.checkedUnmarshal fun peerAddr => { peerAddr }

def FGetXattrResp.checkedUnmarshal : Bytes → Decoded FGetXattrResp :=
  unmarshalOnly SizedString.checkedUnmarshal fun value => { value }

def FListXattrResp.checkedUnmarshal : Bytes → Decoded FListXattrResp :=
  unmarshalOnly StringArray.checkedUnmarshal fun xattrs => { xattrs }

/-! Messages with a `CheckedUnmarshal` of their own. -/

structure RenameAt2Req where
  renameAtReq : RenameAtReq
  flags : UInt32
deriving DecidableEq

def RenameAt2Req.sizeBytes (r : RenameAt2Req) : Nat := r.renameAtReq.sizeBytes + uint32.size

def RenameAt2Req.marshalBytes (r : RenameAt2Req) : Bytes :=
  r.renameAtReq.marshalBytes ++ uint32.encode r.flags

/-- The names of the receiver are not emptied before its size is taken. -/
def RenameAt2Req.checkedUnmarshal (r : RenameAt2Req) (src : Bytes) : Decoded RenameAt2Req :=
  if r.sizeBytes > src.length then some (.rejected src)
  else
    Decoded.orReject (r.renameAtReq.checkedUnmarshal src) src fun renameAtReq srcRemain =>
      unmarshalOnly (Lisafs.checkedUnmarshal uint32) (fun flags => { renameAtReq, flags }) srcRemain

structure PReadResp where
  numBytes : UInt64
  buf : Bytes
deriving DecidableEq

/-- `int(r.NumBytes)`, of a count that is the length of a slice. -/
def PReadResp.sizeBytes (r : PReadResp) : Nat := uint64.size + r.numBytes.toNat

def PReadResp.marshalBytes (r : PReadResp) : Option Bytes :=
  match cut r.numBytes.toNat r.buf with
  | none => none
  | some (text, _) => some (uint64.encode r.numBytes ++ text)

/-- The bytes are copied into the buffer that the receiver already has. -/
def PReadResp.checkedUnmarshal (r : PReadResp) (src : Bytes) : Decoded PReadResp :=
  Decoded.orReject (Lisafs.checkedUnmarshal uint64 src) src fun numBytes srcRemain =>
    if numBytes.toNat > srcRemain.length ∨ numBytes.toNat > r.buf.length then some (.rejected src)
    else
      match cut numBytes.toNat srcRemain with
      | none => none
      | some (buf, rest) => some (.accepted { numBytes, buf } rest)

structure PWriteReq where
  offset : UInt64
  fd : FDID
  numBytes : UInt32
  buf : Bytes
deriving DecidableEq

def PWriteReq.sizeBytes (w : PWriteReq) : Nat :=
  uint64.size + uint64.size + uint32.size + w.numBytes.toNat

def PWriteReq.marshalBytes (w : PWriteReq) : Option Bytes :=
  match cut w.numBytes.toNat w.buf with
  | none => none
  | some (text, _) =>
    some (uint64.encode w.offset ++ uint64.encode w.fd ++ uint32.encode w.numBytes ++ text)

/-- The number of bytes left is cut to 32 bits before it is compared with the count. -/
def PWriteReq.checkedUnmarshal (w : PWriteReq) (src : Bytes) : Decoded PWriteReq :=
  if { w with numBytes := 0 }.sizeBytes > src.length then some (.rejected src)
  else
    match unmarshalUnsafe (pair (pair uint64 uint64) uint32) src with
    | none => none
    | some (((offset, fd), numBytes), srcRemain) =>
      if numBytes > UInt32.ofNat srcRemain.length then some (.rejected src)
      else
        match cut numBytes.toNat srcRemain with
        | none => none
        | some (buf, rest) => some (.accepted { offset, fd, numBytes, buf } rest)

structure Getdents64Resp where
  dirents : List Dirent64
deriving DecidableEq

def Getdents64Resp.sizeBytes (g : Getdents64Resp) : Nat :=
  uint16.size + (g.dirents.map Dirent64.sizeBytes).sum

def Getdents64Resp.marshalBytes (g : Getdents64Resp) : Bytes :=
  uint16.encode (UInt16.ofNat g.dirents.length) ++ g.dirents.flatMap Dirent64.marshalBytes

/-- What is left in the elements of a reused array does not matter: a `Dirent64` is emptied before
its size is taken. -/
def Getdents64Resp.checkedUnmarshal (g : Getdents64Resp) (src : Bytes) : Decoded Getdents64Resp :=
  if { g with dirents := [] }.sizeBytes > src.length then some (.rejected src)
  else
    match unmarshalUnsafe uint16 src with
    | none => none
    | some (numDirents, srcRemain) =>
      unmarshalOnly
        (unmarshalEach (Dirent64.checkedUnmarshal ⟨0, 0, 0, 0, 0, []⟩) src numDirents.toNat)
        (fun dirents => { dirents }) srcRemain

end BVisor.Lisafs
