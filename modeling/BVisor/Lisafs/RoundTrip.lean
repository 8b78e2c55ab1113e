import BVisor.Lisafs.Codec

/-! The codecs of all hand-written messages, and what holds of every one of them. -/

namespace BVisor.Lisafs

open BVisor.Data BVisor.Data.Packed List RenameAtReq

variable {α : Type}

structure Codec (α : Type) where
  sizeBytes : α → Nat
  /-- `none` is a panic. -/
  marshalBytes : α → Option Bytes
  checkedUnmarshal : α → Bytes → Decoded α

inductive Kind where
  | emptyMessage | walkReq | walkResp | walkStatResp | mountResp | openCreateAtReq | closeReq
  | fsyncReq | preadResp | pwriteReq | mkdirAtReq | mknodAtReq | symlinkAtReq | linkAtReq
  | readLinkAtResp | bindAtReq | acceptResp | unlinkAtReq | renameAtReq | renameAt2Req
  | getdents64Resp | fgetXattrReq | fgetXattrResp | fsetXattrReq | fremoveXattrReq
  | flistXattrResp
deriving DecidableEq

abbrev Kind.Value : Kind → Type
  | .emptyMessage => Unit
  | .walkReq => WalkReq
  | .walkResp => WalkResp
  | .walkStatResp => WalkStatResp
  | .mountResp => MountResp
  | .openCreateAtReq => OpenCreateAtReq
  | .closeReq => CloseReq
  | .fsyncReq => FsyncReq
  | .preadResp => PReadResp
  | .pwriteReq => PWriteReq
  | .mkdirAtReq => MkdirAtReq
  | .mknodAtReq => MknodAtReq
  | .symlinkAtReq => SymlinkAtReq
  | .linkAtReq => LinkAtReq
  | .readLinkAtResp => ReadLinkAtResp
  | .bindAtReq => BindAtReq
  | .acceptResp => AcceptResp
  | .unlinkAtReq => UnlinkAtReq
  | .renameAtReq => RenameAtReq
  | .renameAt2Req => RenameAt2Req
  | .getdents64Resp => Getdents64Resp
  | .fgetXattrReq => FGetXattrReq
  | .fgetXattrResp => FGetXattrResp
  | .fsetXattrReq => FSetXattrReq
  | .fremoveXattrReq => FRemoveXattrReq
  | .flistXattrResp => FListXattrResp

def Kind.codec : (kind : Kind) → Codec kind.Value
  | .emptyMessage => ⟨fun _ => 0, fun _ => some [], fun _ src => some (.accepted () src)⟩
  | .walkReq => ⟨WalkReq.sizeBytes, some ∘ WalkReq.marshalBytes, WalkReq.checkedUnmarshal⟩
  | .walkResp => ⟨WalkResp.sizeBytes, some ∘ WalkResp.marshalBytes, WalkResp.checkedUnmarshal⟩
  | .walkStatResp =>
    ⟨WalkStatResp.sizeBytes, some ∘ WalkStatResp.marshalBytes, WalkStatResp.checkedUnmarshal⟩
  | .mountResp => ⟨MountResp.sizeBytes, some ∘ MountResp.marshalBytes, MountResp.checkedUnmarshal⟩
  | .openCreateAtReq =>
    ⟨OpenCreateAtReq.sizeBytes, some ∘ OpenCreateAtReq.marshalBytes,
      OpenCreateAtReq.checkedUnmarshal⟩
  | .closeReq =>
    ⟨fun c => c.fds.sizeBytes, fun c => some c.fds.marshalBytes, CloseReq.checkedUnmarshal⟩
  | .fsyncReq =>
    ⟨fun f => f.fds.sizeBytes, fun f => some f.fds.marshalBytes, FsyncReq.checkedUnmarshal⟩
  | .preadResp => ⟨PReadResp.sizeBytes, PReadResp.marshalBytes, PReadResp.checkedUnmarshal⟩
  | .pwriteReq => ⟨PWriteReq.sizeBytes, PWriteReq.marshalBytes, PWriteReq.checkedUnmarshal⟩
  | .mkdirAtReq =>
    ⟨MkdirAtReq.sizeBytes, some ∘ MkdirAtReq.marshalBytes, MkdirAtReq.checkedUnmarshal⟩
  | .mknodAtReq =>
    ⟨MknodAtReq.sizeBytes, some ∘ MknodAtReq.marshalBytes, MknodAtReq.checkedUnmarshal⟩
  | .symlinkAtReq =>
    ⟨SymlinkAtReq.sizeBytes, some ∘ SymlinkAtReq.marshalBytes, SymlinkAtReq.checkedUnmarshal⟩
  | .linkAtReq => ⟨LinkAtReq.sizeBytes, some ∘ LinkAtReq.marshalBytes, LinkAtReq.checkedUnmarshal⟩
  | .readLinkAtResp =>
    ⟨fun r => r.target.sizeBytes, fun r => some r.target.marshalBytes,
      fun _ => ReadLinkAtResp.checkedUnmarshal⟩
  | .bindAtReq => ⟨BindAtReq.sizeBytes, some ∘ BindAtReq.marshalBytes, BindAtReq.checkedUnmarshal⟩
  | .acceptResp =>
    ⟨fun a => a.peerAddr.sizeBytes, fun a => some a.peerAddr.marshalBytes,
      fun _ => AcceptResp.checkedUnmarshal⟩
  | .unlinkAtReq =>
    ⟨UnlinkAtReq.sizeBytes, some ∘ UnlinkAtReq.marshalBytes, UnlinkAtReq.checkedUnmarshal⟩
  | .renameAtReq =>
    ⟨RenameAtReq.sizeBytes, some ∘ RenameAtReq.marshalBytes, RenameAtReq.checkedUnmarshal⟩
  | .renameAt2Req =>
    ⟨RenameAt2Req.sizeBytes, some ∘ RenameAt2Req.marshalBytes, RenameAt2Req.checkedUnmarshal⟩
  | .getdents64Resp =>
    ⟨Getdents64Resp.sizeBytes, some ∘ Getdents64Resp.marshalBytes,
      Getdents64Resp.checkedUnmarshal⟩
  | .fgetXattrReq =>
    ⟨FGetXattrReq.sizeBytes, some ∘ FGetXattrReq.marshalBytes, FGetXattrReq.checkedUnmarshal⟩
  | .fgetXattrResp =>
    ⟨fun g => g.value.sizeBytes, fun g => some g.value.marshalBytes,
      fun _ => FGetXattrResp.checkedUnmarshal⟩
  | .fsetXattrReq =>
    ⟨FSetXattrReq.sizeBytes, some ∘ FSetXattrReq.marshalBytes, FSetXattrReq.checkedUnmarshal⟩
  | .fremoveXattrReq =>
    ⟨FRemoveXattrReq.sizeBytes, some ∘ FRemoveXattrReq.marshalBytes,
      FRemoveXattrReq.checkedUnmarshal⟩
  | .flistXattrResp =>
    ⟨fun l => l.xattrs.sizeBytes, fun l => some l.xattrs.marshalBytes,
      fun _ => FListXattrResp.checkedUnmarshal⟩

def SizedString.Fits (s : SizedString) : Prop := s.length < 2 ^ 16

def Kind.Fits : (kind : Kind) → kind.Value → Prop
  | .emptyMessage, _ => True
  | .walkReq, w => w.path.Fits
  | .walkResp, w => w.inodes.length < 2 ^ 16
  | .walkStatResp, w => w.stats.length < 2 ^ 16
  | .mountResp, m => m.supportedMs.length < 2 ^ 16
  | .openCreateAtReq, o => o.name.Fits
  | .closeReq, c => c.fds.length < 2 ^ 16
  | .fsyncReq, f => f.fds.length < 2 ^ 16
  | .preadResp, r => r.buf.length = r.numBytes.toNat
  | .pwriteReq, w => w.buf.length = w.numBytes.toNat
  | .mkdirAtReq, m => m.name.Fits
  | .mknodAtReq, m => m.name.Fits
  | .symlinkAtReq, s => s.name.Fits ∧ s.target.Fits
  | .linkAtReq, l => l.name.Fits
  | .readLinkAtResp, r => r.target.Fits
  | .bindAtReq, b => b.name.Fits
  | .acceptResp, a => a.peerAddr.Fits
  | .unlinkAtReq, u => u.name.Fits
  | .renameAtReq, r => r.oldName.Fits ∧ r.newName.Fits
  | .renameAt2Req, r => r.renameAtReq.oldName.Fits ∧ r.renameAtReq.newName.Fits
  | .getdents64Resp, g =>
    g.dirents.length < 2 ^ 16 ∧ ∀ dirent ∈ g.dirents, SizedString.Fits dirent.name
  | .fgetXattrReq, g => g.name.Fits
  | .fgetXattrResp, g => g.value.Fits
  | .fsetXattrReq, s => s.name.Fits ∧ s.value.Fits
  | .fremoveXattrReq, r => r.name.Fits
  | .flistXattrResp, l => l.xattrs.Fits

/-- What a receiver must be like for a message with this tail to be accepted. A `PReadResp` copies
into the buffer that the receiver has. -/
def Kind.Ready : (kind : Kind) → (receiver value : kind.Value) → (tail : Bytes) → Prop
  | .preadResp, r, value, _ => value.numBytes.toNat ≤ r.buf.length
  | .pwriteReq, _, value, tail => value.buf.length ≤ (value.buf.length + tail.length) % 2 ^ 32
  | .renameAt2Req, r, value, tail => r.sizeBytes ≤ value.sizeBytes + tail.length
  | _, _, _, _ => True

/-- Marshalling writes as many bytes as the size says and they are read back. -/
def Codec.RoundTrips (codec : Codec α) (value : α) (ready : α → Bytes → Prop) : Prop :=
  ∃ bytes, codec.marshalBytes value = some bytes ∧ bytes.length = codec.sizeBytes value ∧
    ∀ receiver tail, ready receiver tail →
      codec.checkedUnmarshal receiver (bytes ++ tail) = some (.accepted value tail)

variable {codec : Codec α} {value : α} {ready : α → Bytes → Prop} {bytes : Bytes} {r : RenameAtReq}
  {d : Dirent64}

theorem roundTrips_of_reads (marshalled : codec.marshalBytes value = some bytes)
    (length : bytes.length = codec.sizeBytes value)
    (reads : ∀ receiver, Reads (codec.checkedUnmarshal receiver) bytes value) :
    codec.RoundTrips value ready :=
  ⟨bytes, marshalled, length, fun receiver tail _ => reads receiver tail⟩

/-! The families. -/

open SizedString

section Families

variable {α β γ : Type} {codec : Codec γ} {fixed : Packed α} {part : Bytes → Decoded β}
  {make : α → β → γ} {minimum : γ → Nat} {value : γ} {ready : γ → Bytes → Prop} {first second : SizedString}
  {bytes : Bytes}

theorem roundTrips_then (fields : α) {last : β} {least : Nat}
    (unmarshals : ∀ receiver, codec.checkedUnmarshal receiver =
      unmarshalThen (minimum receiver) fixed part make) (made : make fields last = value)
    (marshals : codec.marshalBytes value = some (fixed.encode fields ++ bytes))
    (sizes : codec.sizeBytes value = fixed.size + bytes.length)
    (emptied : ∀ receiver, minimum receiver = fixed.size + least)
    (enough : least ≤ bytes.length) (reads : Reads part bytes last) :
    codec.RoundTrips value ready := by
  apply roundTrips_of_reads marshals
  · rw [length_append, fixed.encode_length, sizes]
  · intro receiver
    rw [unmarshals, ← made]
    apply unmarshalThen_reads reads
    rw [emptied]
    omega

theorem roundTrips_named {make : α → SizedString → γ} (fields : α) {name : SizedString}
    (unmarshals : ∀ receiver, codec.checkedUnmarshal receiver =
      unmarshalThen (minimum receiver) fixed SizedString.checkedUnmarshal make) (made : make fields name = value)
    (marshals : codec.marshalBytes value = some (fixed.encode fields ++ name.marshalBytes))
    (sizes : codec.sizeBytes value = fixed.size + name.sizeBytes)
    (emptied : ∀ receiver, minimum receiver = fixed.size + 2) (fits : name.Fits) :
    codec.RoundTrips value ready := by
  have length : name.marshalBytes.length = name.sizeBytes := marshalBytes_length fits
  apply roundTrips_then fields unmarshals made marshals _ emptied _ (reads fits)
  · rw [sizes, length]
  · rw [length]
    exact Nat.le_add_right 2 _

theorem twoNames_length (fits : first.Fits ∧ second.Fits) :
    (first.marshalBytes ++ second.marshalBytes).length = first.sizeBytes + second.sizeBytes := by
  rw [length_append, marshalBytes_length fits.1, marshalBytes_length fits.2]

theorem roundTrips_twoNames {make : α → SizedString × SizedString → γ} (fields : α)
    (unmarshals : ∀ receiver, codec.checkedUnmarshal receiver =
      unmarshalThen (minimum receiver) fixed unmarshalTwoStrings make)
    (made : make fields (first, second) = value)
    (marshals : codec.marshalBytes value =
      some (fixed.encode fields ++ first.marshalBytes ++ second.marshalBytes))
    (sizes : codec.sizeBytes value = fixed.size + first.sizeBytes + second.sizeBytes)
    (emptied : ∀ receiver, minimum receiver = fixed.size + 4)
    (fits : first.Fits ∧ second.Fits) : codec.RoundTrips value ready := by
  rw [append_assoc] at marshals
  apply roundTrips_then fields unmarshals made marshals _ emptied _ (unmarshalTwoStrings_reads fits.1 fits.2)
  · rw [sizes, twoNames_length fits, Nat.add_assoc]
  · have firstLeast : 2 ≤ first.sizeBytes := Nat.le_add_right 2 _
    have secondLeast : 2 ≤ second.sizeBytes := Nat.le_add_right 2 _
    rw [twoNames_length fits]
    omega

theorem roundTrips_counted {element : Packed β} {make : α → List β → γ} (fields : α)
    {items : List β}
    (unmarshals : ∀ receiver, codec.checkedUnmarshal receiver =
      unmarshalCounted (minimum receiver) fixed element make) (made : make fields items = value)
    (marshals : codec.marshalBytes value = some (fixed.encode fields ++
      uint16.encode (UInt16.ofNat items.length) ++ element.encodeAll items))
    (sizes : codec.sizeBytes value = fixed.size + 2 + items.length * element.size)
    (emptied : ∀ receiver, minimum receiver ≤ fixed.size + 2) (fits : items.length < 2 ^ 16) :
    codec.RoundTrips value ready := by
  apply roundTrips_of_reads marshals
  · rw [length_append, length_append, fixed.encode_length, encodeAll_length, uint16.encode_length, sizes]
    rfl
  · intro receiver
    rw [unmarshals, ← made, append_assoc]
    exact unmarshalCounted_reads fields fits (emptied receiver)

theorem roundTrips_only {make : α → γ} {last : α}
    (unmarshals : ∀ receiver, ∃ part, codec.checkedUnmarshal receiver = unmarshalOnly part make ∧
      Reads part bytes last) (made : make last = value) (marshals : codec.marshalBytes value = some bytes)
    (sizes : bytes.length = codec.sizeBytes value) : codec.RoundTrips value ready := by
  apply roundTrips_of_reads marshals sizes
  intro receiver
  obtain ⟨part, unmarshal, reads⟩ := unmarshals receiver
  rw [unmarshal, ← made]
  exact unmarshalOnly_reads reads

end Families

/-! The arrays of descriptors and of directory entries. -/

theorem FdArray.marshalBytes_length (fds : FdArray) : fds.marshalBytes.length = fds.sizeBytes := by
  rw [FdArray.marshalBytes, length_append, uint16.encode_length, encodeAll_length, FdArray.sizeBytes]

theorem FdArray.reads {fds : FdArray} (fits : fds.length < 2 ^ 16) (receiver : FdArray) :
    Reads receiver.checkedUnmarshal fds.marshalBytes fds :=
  unmarshalCounted_reads () fits (Nat.le_refl 2)

theorem FdArray.contained (receiver : FdArray) : Contained FdArray.sizeBytes receiver.checkedUnmarshal :=
  unmarshalCounted_contained (Nat.le_refl 2) fun _ _ => rfl

theorem Dirent64.marshalBytes_length (fits : d.name.Fits) :
    d.marshalBytes.length = d.sizeBytes := by
  have length : d.name.marshalBytes.length = d.name.sizeBytes := SizedString.marshalBytes_length fits
  simp only [Dirent64.marshalBytes, Dirent64.sizeBytes, length_append, encode_length, length]

theorem Dirent64.reads (fits : d.name.Fits) (receiver : Dirent64) :
    Reads receiver.checkedUnmarshal d.marshalBytes d := by
  have length : d.name.marshalBytes.length = d.name.sizeBytes := SizedString.marshalBytes_length fits
  change Reads _ ((pair (pair (pair (pair uint64 uint32) uint32) uint64) uint8).encode
    ((((d.ino, d.devMinor), d.devMajor), d.off), d.type) ++ d.name.marshalBytes) _
  refine unmarshalThen_reads (SizedString.reads fits) ?_
  rw [length]
  exact Nat.add_le_add_left (Nat.le_add_right 2 _) _

theorem Dirent64.contained (receiver : Dirent64) : Contained Dirent64.sizeBytes receiver.checkedUnmarshal :=
  unmarshalThen_contained SizedString.contained (Nat.le_add_right _ _) fun _ _ => rfl

namespace Getdents64Resp

theorem roundTrips {g : Getdents64Resp} (counted : g.dirents.length < 2 ^ 16)
    (named : ∀ dirent ∈ g.dirents, SizedString.Fits dirent.name) (ready : Getdents64Resp → Bytes → Prop) :
    (Codec.mk sizeBytes (some ∘ marshalBytes)
      checkedUnmarshal).RoundTrips g ready := by
  apply roundTrips_of_reads rfl
  · rw [marshalBytes, length_append, uint16.encode_length,
      flatMap_length fun dirent member => Dirent64.marshalBytes_length (named dirent member)]
    rfl
  · intro receiver tail
    have each := unmarshalEach_reads fun dirent member =>
      Dirent64.reads (named dirent member) ⟨0, 0, 0, 0, 0, []⟩
    have enough : ¬ sizeBytes ⟨[]⟩ >
        (uint16.encode (UInt16.ofNat g.dirents.length) ++
          (g.dirents.flatMap Dirent64.marshalBytes ++ tail)).length := by
      rw [length_append, uint16.encode_length]
      exact Nat.not_lt.mpr (Nat.le_add_right 2 _)
    simp only [marshalBytes, append_assoc, checkedUnmarshal,
      if_neg enough, unmarshalUnsafe_encode, toNat_ofNat_length counted]
    exact unmarshalOnly_reads (each _) tail

theorem contained (receiver : Getdents64Resp) : Contained sizeBytes receiver.checkedUnmarshal := by
  intro src
  by_cases short : sizeBytes ⟨[]⟩ > src.length
  · exact ⟨.rejected src, if_pos short, trivial⟩
  obtain ⟨count, used, srcRemain, found, joined, length⟩ :=
    unmarshalUnsafe_exists (Nat.le_of_not_lt short : uint16.size ≤ src.length)
  simp only [checkedUnmarshal, if_neg short, found]
  apply unmarshalOnly_after joined (unmarshalEach_contained (Dirent64.contained _) count.toNat src)
  intro dirents
  rw [length, sizeBytes]

end Getdents64Resp

/-! Messages with a check of their own. -/

theorem RenameAtReq.reads (fits : r.oldName.Fits ∧ r.newName.Fits)
    (receiver : RenameAtReq) : Reads receiver.checkedUnmarshal r.marshalBytes r := by
  have joined : r.marshalBytes = (pair uint64 uint64).encode (r.oldDir, r.newDir) ++
      (r.oldName.marshalBytes ++ r.newName.marshalBytes) := by
    rw [← append_assoc]
    rfl
  rw [joined]
  refine unmarshalThen_reads (unmarshalTwoStrings_reads fits.1 fits.2) ?_
  rw [twoNames_length fits]
  change 16 + 2 + 2 ≤ 16 + ((2 + r.oldName.length) + (2 + r.newName.length))
  omega

theorem RenameAtReq.marshalBytes_length
    (fits : r.oldName.Fits ∧ r.newName.Fits) : r.marshalBytes.length = r.sizeBytes := by
  have names := twoNames_length fits
  simp only [marshalBytes, sizeBytes, length_append, encode_length] at names ⊢
  omega

theorem RenameAtReq.contained (receiver : RenameAtReq) :
    Contained sizeBytes receiver.checkedUnmarshal :=
  unmarshalThen_contained unmarshalTwoStrings_contained (Nat.le_add_right 16 4) fun _ _ => Nat.add_assoc _ _ _

namespace RenameAt2Req

theorem roundTrips {r : RenameAt2Req} (fits : r.renameAtReq.oldName.Fits ∧ r.renameAtReq.newName.Fits) :
    (Codec.mk sizeBytes (some ∘ marshalBytes)
      checkedUnmarshal).RoundTrips r
      fun receiver tail => receiver.sizeBytes ≤ r.sizeBytes + tail.length := by
  have length : r.marshalBytes.length = r.sizeBytes := by
    rw [marshalBytes, length_append, marshalBytes_length fits, uint32.encode_length, sizeBytes]
  refine ⟨r.marshalBytes, rfl, length, ?_⟩
  intro receiver tail ready
  have enough : ¬ receiver.sizeBytes > (r.marshalBytes ++ tail).length := by
    rw [length_append, length]
    exact Nat.not_lt.mpr ready
  simp only [checkedUnmarshal, if_neg enough]
  rw [marshalBytes, append_assoc, orReject_reads (reads fits _)]
  exact unmarshalOnly_reads (checkedUnmarshal_reads r.flags) tail

theorem contained (receiver : RenameAt2Req) : Contained sizeBytes receiver.checkedUnmarshal := by
  intro src
  by_cases short : receiver.sizeBytes > src.length
  · exact ⟨.rejected src, if_pos short, trivial⟩
  simp only [checkedUnmarshal, if_neg short]
  apply orReject_contained sizeBytes (RenameAtReq.contained _)
  intro renameAtReq used srcRemain joined length
  apply unmarshalOnly_after joined (checkedUnmarshal_contained uint32)
  intro flags
  rw [length, sizeBytes]

end RenameAt2Req

namespace PReadResp

theorem roundTrips {r : PReadResp} (fits : r.buf.length = r.numBytes.toNat) :
    (Codec.mk sizeBytes marshalBytes checkedUnmarshal).RoundTrips r
      fun receiver _ => r.numBytes.toNat ≤ receiver.buf.length := by
  have whole : cut r.numBytes.toNat (r.buf ++ []) = some (r.buf, []) := cut_append fits
  rw [append_nil] at whole
  refine ⟨uint64.encode r.numBytes ++ r.buf, ?_, ?_, ?_⟩
  · simp only [marshalBytes, whole]
  · rw [length_append, uint64.encode_length, fits]
    rfl
  · intro receiver tail ready
    have enough : ¬ (r.numBytes.toNat > (r.buf ++ tail).length ∨
        r.numBytes.toNat > receiver.buf.length) := by
      rw [length_append]
      omega
    simp only [checkedUnmarshal, append_assoc]
    rw [orReject_reads (checkedUnmarshal_reads r.numBytes), if_neg enough, cut_append fits]

theorem contained (receiver : PReadResp) : Contained sizeBytes receiver.checkedUnmarshal := by
  intro src
  apply orReject_contained sizeBytes (checkedUnmarshal_contained uint64)
  intro numBytes used srcRemain joined length
  by_cases refused : numBytes.toNat > srcRemain.length ∨ numBytes.toNat > receiver.buf.length
  · exact ⟨.rejected src, if_pos refused, trivial⟩
  · obtain ⟨buf, rest, found, split, size⟩ := cut_exists (by omega : numBytes.toNat ≤ srcRemain.length)
    exact ⟨.accepted ⟨numBytes, buf⟩ rest, by simp only [if_neg refused, found],
      takes_append joined split (by rw [length, size, sizeBytes])⟩

end PReadResp

namespace PWriteReq

variable {w : PWriteReq}

theorem roundTrips (length : w.buf.length = w.numBytes.toNat) :
    (Codec.mk sizeBytes marshalBytes checkedUnmarshal).RoundTrips w
      fun _ tail => w.buf.length ≤ (w.buf.length + tail.length) % 2 ^ 32 := by
  have whole : cut w.numBytes.toNat (w.buf ++ []) = some (w.buf, []) := cut_append length
  rw [append_nil] at whole
  have fixedLength := (pair (pair uint64 uint64) uint32).encode_length ((w.offset, w.fd), w.numBytes)
  refine ⟨(pair (pair uint64 uint64) uint32).encode ((w.offset, w.fd), w.numBytes) ++ w.buf, ?_, ?_, ?_⟩
  · simp only [marshalBytes, whole]
    rfl
  · rw [length_append, fixedLength, length]
    rfl
  · intro receiver tail ready
    have enough : ¬ ({ receiver with numBytes := 0 } : PWriteReq).sizeBytes >
        ((pair (pair uint64 uint64) uint32).encode ((w.offset, w.fd), w.numBytes) ++ (w.buf ++ tail)).length := by
      rw [length_append, fixedLength]
      exact Nat.not_lt.mpr (Nat.le_add_right 20 _)
    have counted : ¬ w.numBytes > UInt32.ofNat (w.buf ++ tail).length := by
      rw [gt_iff_lt, UInt32.lt_iff_toNat_lt, UInt32.toNat_ofNat', length_append, ← length]
      omega
    simp only [checkedUnmarshal, append_assoc, if_neg enough,
      unmarshalUnsafe_encode, if_neg counted, cut_append length]

/-- A message is rejected when the number of bytes after its fields, cut to 32 bits, is below the
number that it announces. -/
theorem cut_length_rejects {rest : Bytes}
    (below : rest.length % 2 ^ 32 < w.numBytes.toNat) (receiver : PWriteReq) :
    let src := (pair (pair uint64 uint64) uint32).encode ((w.offset, w.fd), w.numBytes) ++ rest
    receiver.checkedUnmarshal src = some (.rejected src) := by
  have fixedLength := (pair (pair uint64 uint64) uint32).encode_length ((w.offset, w.fd), w.numBytes)
  have enough : ¬ ({ receiver with numBytes := 0 } : PWriteReq).sizeBytes >
      ((pair (pair uint64 uint64) uint32).encode ((w.offset, w.fd), w.numBytes) ++ rest).length := by
    rw [length_append, fixedLength]
    exact Nat.not_lt.mpr (Nat.le_add_right 20 _)
  have refused : w.numBytes > UInt32.ofNat rest.length := by
    rw [gt_iff_lt, UInt32.lt_iff_toNat_lt, UInt32.toNat_ofNat']
    exact below
  simp only [checkedUnmarshal, if_neg enough, unmarshalUnsafe_encode, if_pos refused]

theorem contained (receiver : PWriteReq) : Contained sizeBytes receiver.checkedUnmarshal := by
  intro src
  by_cases short : ({ receiver with numBytes := 0 } : PWriteReq).sizeBytes > src.length
  · exact ⟨.rejected src, if_pos short, trivial⟩
  obtain ⟨⟨⟨offset, fd⟩, numBytes⟩, used, srcRemain, found, joined, length⟩ :=
    unmarshalUnsafe_exists (Nat.le_of_not_lt short : (pair (pair uint64 uint64) uint32).size ≤ src.length)
  by_cases refused : numBytes > UInt32.ofNat srcRemain.length
  · exact ⟨.rejected src, by simp only [checkedUnmarshal, if_neg short, found, if_pos refused], trivial⟩
  -- cutting the length to 32 bits only makes it smaller
  have below : numBytes.toNat ≤ srcRemain.length := by
    rw [gt_iff_lt, UInt32.lt_iff_toNat_lt, UInt32.toNat_ofNat'] at refused
    have cutLength := Nat.mod_le srcRemain.length (2 ^ 32)
    omega
  obtain ⟨buf, rest, cutFound, split, size⟩ := cut_exists below
  refine ⟨.accepted ⟨offset, fd, numBytes, buf⟩ rest,
    by simp only [checkedUnmarshal, if_neg short, found, if_neg refused, cutFound],
    takes_append joined split ?_⟩
  rw [length, size, sizeBytes]
  rfl

end PWriteReq

/-! Every message. -/

theorem Kind.roundTrips (kind : Kind) (value : kind.Value) (fits : kind.Fits value) :
    kind.codec.RoundTrips value fun receiver => kind.Ready receiver value := by
  cases kind with
  | emptyMessage => exact roundTrips_of_reads rfl rfl fun _ _ => rfl
  | walkReq =>
    have length := StringArray.marshalBytes_length fits
    refine roundTrips_then value.dirFD (fun _ => rfl) rfl rfl ?_ (fun _ => rfl) ?_ (StringArray.reads fits)
    · rw [length]
      rfl
    · rw [length]
      exact Nat.le_add_right 2 _
  | walkResp =>
    exact roundTrips_counted value.status (fun _ => rfl) rfl rfl rfl (fun _ => Nat.le_refl _) fits
  | walkStatResp =>
    exact roundTrips_counted () (fun _ => rfl) rfl rfl rfl (fun _ => Nat.le_refl _) fits
  | mountResp =>
    exact roundTrips_counted (value.root, value.maxMessageSize) (fun _ => rfl) rfl rfl rfl
      (fun _ => Nat.le_refl _) fits
  | openCreateAtReq =>
    exact roundTrips_named (value.createCommon, value.flags) (fun _ => rfl) rfl rfl rfl (fun _ => rfl) fits
  | closeReq | fsyncReq =>
    exact roundTrips_only (fun receiver => ⟨_, rfl, FdArray.reads fits receiver.fds⟩) rfl rfl
      (FdArray.marshalBytes_length _)
  | preadResp => exact PReadResp.roundTrips fits
  | pwriteReq => exact PWriteReq.roundTrips fits
  | mkdirAtReq =>
    exact roundTrips_named value.createCommon (fun _ => rfl) rfl rfl rfl (fun _ => rfl) fits
  | mknodAtReq =>
    exact roundTrips_named ((value.createCommon, value.minor), value.major) (fun _ => rfl) rfl rfl
      rfl (fun _ => rfl) fits
  | symlinkAtReq =>
    exact roundTrips_twoNames ((value.dirFD, value.uid), value.gid) (fun _ => rfl) rfl rfl rfl (fun _ => rfl) fits
  | linkAtReq =>
    exact roundTrips_named (value.dirFD, value.target) (fun _ => rfl) rfl rfl rfl (fun _ => rfl) fits
  | bindAtReq =>
    exact roundTrips_named (value.createCommon, value.sockType) (fun _ => rfl) rfl rfl rfl (fun _ => rfl) fits
  | unlinkAtReq =>
    exact roundTrips_named (value.dirFD, value.flags) (fun _ => rfl) rfl rfl rfl (fun _ => rfl) fits
  | renameAtReq =>
    exact roundTrips_of_reads rfl (marshalBytes_length fits) (reads fits)
  | renameAt2Req => exact RenameAt2Req.roundTrips fits
  | getdents64Resp => exact Getdents64Resp.roundTrips fits.1 fits.2 _
  | fgetXattrReq =>
    exact roundTrips_named (value.fd, value.bufSize) (fun _ => rfl) rfl rfl rfl (fun _ => rfl) fits
  | readLinkAtResp | acceptResp | fgetXattrResp =>
    exact roundTrips_only (fun _ => ⟨_, rfl, reads fits⟩) rfl rfl
      (marshalBytes_length fits)
  | fsetXattrReq =>
    exact roundTrips_twoNames (value.fd, value.flags) (fun _ => rfl) rfl rfl rfl (fun _ => rfl) fits
  | fremoveXattrReq =>
    exact roundTrips_named value.fd (fun _ => rfl) rfl rfl rfl (fun _ => rfl) fits
  | flistXattrResp =>
    exact roundTrips_only (fun _ => ⟨_, rfl, StringArray.reads fits⟩) rfl rfl
      (StringArray.marshalBytes_length fits)

theorem Kind.contained (kind : Kind) (receiver : kind.Value) :
    Contained kind.codec.sizeBytes (kind.codec.checkedUnmarshal receiver) := by
  cases kind with
  | emptyMessage => exact fun src => ⟨.accepted () src, rfl, [], rfl, rfl⟩
  | walkReq =>
    exact unmarshalThen_contained StringArray.contained (Nat.le_add_right 8 2) fun _ _ => rfl
  | walkResp => exact unmarshalCounted_contained (Nat.le_refl 3) fun _ _ => rfl
  | walkStatResp => exact unmarshalCounted_contained (Nat.le_refl 2) fun _ _ => rfl
  | mountResp => exact unmarshalCounted_contained (Nat.le_refl _) fun _ _ => rfl
  | openCreateAtReq | mkdirAtReq | mknodAtReq | linkAtReq | bindAtReq | unlinkAtReq | fgetXattrReq
  | fremoveXattrReq =>
    exact unmarshalThen_contained SizedString.contained (Nat.le_add_right _ 2) fun _ _ => rfl
  | symlinkAtReq | fsetXattrReq =>
    exact unmarshalThen_contained unmarshalTwoStrings_contained (Nat.le_add_right _ 4)
      fun _ _ => Nat.add_assoc _ _ _
  | closeReq | fsyncReq => exact unmarshalOnly_contained (FdArray.contained _) fun _ => rfl
  | preadResp => exact PReadResp.contained receiver
  | pwriteReq => exact PWriteReq.contained receiver
  | readLinkAtResp | acceptResp | fgetXattrResp =>
    exact unmarshalOnly_contained SizedString.contained fun _ => rfl
  | renameAtReq => exact RenameAtReq.contained receiver
  | renameAt2Req => exact RenameAt2Req.contained receiver
  | getdents64Resp => exact Getdents64Resp.contained receiver
  | flistXattrResp => exact unmarshalOnly_contained StringArray.contained fun _ => rfl

/-- Every message whose parts fit their length fields is marshalled to as many bytes as its size
says and read back from them, and no bytes make a receiver read out of range or take more or fewer
bytes than the message it accepts. -/
theorem messages_round_trip (kind : Kind) :
    (∀ value, kind.Fits value →
      kind.codec.RoundTrips value fun receiver => kind.Ready receiver value) ∧
    ∀ receiver, Contained kind.codec.sizeBytes (kind.codec.checkedUnmarshal receiver) :=
  ⟨kind.roundTrips, kind.contained⟩

theorem walkReq_round_trip :
    Kind.walkReq.codec.RoundTrips ⟨3, [[97], []]⟩ fun receiver =>
      Kind.walkReq.Ready receiver ⟨3, [[97], []]⟩ :=
  (messages_round_trip .walkReq).1 ⟨3, [[97], []]⟩
    (show [[97], []].length < 2 ^ 16 ∧ ∀ text ∈ [[97], []], text.length < 2 ^ 16 by decide)

/-- A receiver without a buffer rejects a `PReadResp`, whatever it holds. A receiver that still
holds a longer name rejects a `RenameAt2Req`, and every receiver a `PWriteReq` of one byte that
`2 ^ 32 - 1` bytes follow. -/
theorem valid_messages_rejected :
    (Kind.preadResp.Fits ⟨1, [7]⟩ ∧
      PReadResp.marshalBytes ⟨1, [7]⟩ = some [1, 0, 0, 0, 0, 0, 0, 0, 7] ∧
      PReadResp.checkedUnmarshal ⟨0, []⟩ [1, 0, 0, 0, 0, 0, 0, 0, 7] =
        some (.rejected [1, 0, 0, 0, 0, 0, 0, 0, 7])) ∧
    (∃ request : RenameAt2Req, Kind.renameAt2Req.Fits request ∧
      RenameAt2Req.checkedUnmarshal ⟨⟨1, 2, [97, 97], [98]⟩, 0⟩ request.marshalBytes =
        some (.rejected request.marshalBytes)) ∧
    Kind.pwriteReq.Fits ⟨0, 3, 1, [7]⟩ ∧
    ∃ bytes, PWriteReq.marshalBytes ⟨0, 3, 1, [7]⟩ = some bytes ∧
      ∀ receiver tail, tail.length = 2 ^ 32 - 1 →
        PWriteReq.checkedUnmarshal receiver (bytes ++ tail) = some (.rejected (bytes ++ tail)) := by
  refine ⟨⟨rfl, rfl, rfl⟩, ⟨⟨⟨1, 2, [97], [98]⟩, 0⟩, ⟨?_, ?_⟩, rfl⟩, rfl, _, rfl, ?_⟩
  · exact (by decide : 1 < 2 ^ 16)
  · exact (by decide : 1 < 2 ^ 16)
  · intro receiver tail long
    have wrapped : (7 :: tail).length % 2 ^ 32 < (1 : UInt32).toNat := by
      rw [length_cons, long]
      decide
    exact PWriteReq.cut_length_rejects (w := ⟨0, 3, 1, [7]⟩) wrapped receiver

end BVisor.Lisafs
