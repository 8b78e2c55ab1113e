import Mathlib

/-! Reassembly of the fragments of an IP packet, and the fragmenter that cuts a packet. -/

namespace BVisor.Network

abbrev Byte := BitVec 8

def maxUint16 : Nat := 2 ^ 16 - 1

/-- The arguments of `Process` about one fragment: the range `[first, last]` of its bytes, the
protocol, and of the packet its data and `MemSize`. -/
structure Fragment where
  first : Nat
  last : Nat
  more : Bool
  proto : Nat
  data : List Byte
  memSize : Nat
deriving DecidableEq

inductive ArgsError where
  | firstAfterLast | firstUnaligned | sizeUnaligned | sizeMismatch
deriving DecidableEq

/-- The checks of `Process` before it takes the lock; the size is a uint16. -/
def checkArgs (blockSize : Nat) (fragment : Fragment) : Option ArgsError :=
  let fragmentSize := (fragment.last - fragment.first + 1) % 2 ^ 16
  if fragment.first > fragment.last then some .firstAfterLast
  else if fragment.first % blockSize ≠ 0 then some .firstUnaligned
  else if fragment.more ∧ fragmentSize % blockSize ≠ 0 then some .sizeUnaligned
  else if fragment.data.length ≠ fragmentSize then some .sizeMismatch
  else none

/-- A missing or received range. `data` is that of `pkt`, which is nil in a range not filled. -/
structure Hole where
  first : Nat
  last : Nat
  filled : Bool
  final : Bool
  data : List Byte
deriving DecidableEq

/-- `r.pkt`, which only the timeout handler looks at, is left out. -/
structure Reassembler where
  memSize : Nat
  proto : Nat
  holes : List Hole
  filled : Nat
  done : Bool
deriving DecidableEq

def newReassembler : Reassembler :=
  { memSize := 0
    proto := 0
    holes := [{ first := 0, last := maxUint16, filled := false, final := true, data := [] }]
    filled := 0
    done := false }

inductive FragmentError where
  | overlap | conflict
deriving DecidableEq

/-- How the scan of the holes ends: with no hole touched, with ranges that equal the fragment's, or
with the index of the range to fill. -/
inductive Found where
  | nothing | duplicate
  | gap (index : Nat)
deriving DecidableEq

/-- The loop over the holes; `index` is that of the first of them, and `found` is `holeFound`. -/
def scan (fragment : Fragment) : List Hole → Nat → Bool → Except FragmentError Found
  | [], _, found => .ok (if found then .duplicate else .nothing)
  | hole :: rest, index, found =>
    if fragment.last < hole.first ∨ hole.last < fragment.first then
      scan fragment rest (index + 1) found
    else if fragment.first < hole.first ∨ hole.last < fragment.last then .error .overlap
    else if fragment.more = false ∧
        (hole.final = false ∨ hole.filled ∧ hole.last ≠ fragment.last) then
      .error .conflict
    else if hole.filled then
      if fragment.first ≠ hole.first ∨ fragment.last ≠ hole.last then .error .overlap
      else scan fragment rest (index + 1) true
    else .ok (.gap index)

def Hole.before (hole : Hole) (fragment : Fragment) : List Hole :=
  if fragment.first > hole.first then
    [{ first := hole.first, last := fragment.first - 1, filled := false, final := false
       data := [] }]
  else []

def Hole.after (hole : Hole) (fragment : Fragment) : List Hole :=
  if fragment.last < hole.last ∧ fragment.more then
    [{ first := fragment.last + 1, last := hole.last, filled := false, final := hole.final
       data := [] }]
  else []

def Hole.fill (hole : Hole) (fragment : Fragment) : Hole :=
  { first := fragment.first
    last := fragment.last
    filled := true
    final := if fragment.last < hole.last ∧ fragment.more then false else hole.final
    data := fragment.data }

def Reassembler.fill (reassembler : Reassembler) (index : Nat) (hole : Hole)
    (fragment : Fragment) : Reassembler :=
  { reassembler with
    memSize := reassembler.memSize + fragment.memSize
    proto := if fragment.first = 0 then fragment.proto else reassembler.proto
    holes := (reassembler.holes ++ hole.before fragment ++ hole.after fragment).set index (hole.fill fragment)
    filled := reassembler.filled + 1 }

/-- What `process` returns: nothing because the reassembler is done, an error, nothing yet, or the
packet with its protocol. -/
inductive Outcome where
  | ignored
  | failed (error : FragmentError)
  | waiting (memConsumed : Nat)
  | ready (data : List Byte) (proto : Nat) (memConsumed : Nat)
deriving DecidableEq

def sortHoles (holes : List Hole) : List Hole :=
  holes.insertionSort fun first second => first.first ≤ second.first

/-- `MergeFragment` moves the data out of all holes but the first. -/
def emptyMerged : List Hole → List Hole
  | [] => []
  | hole :: rest => hole :: rest.map fun merged => { merged with data := [] }

def Reassembler.finish (reassembler : Reassembler) (memConsumed : Nat) : Reassembler × Outcome :=
  if reassembler.filled < reassembler.holes.length then (reassembler, .waiting memConsumed)
  else
    let holes := sortHoles reassembler.holes
    ({ reassembler with holes := emptyMerged holes },
      .ready (holes.flatMap Hole.data) reassembler.proto memConsumed)

def Reassembler.process (reassembler : Reassembler) (fragment : Fragment) : Reassembler × Outcome :=
  if reassembler.done then (reassembler, .ignored)
  else
    match scan fragment reassembler.holes 0 false with
    | .error error => (reassembler, .failed error)
    | .ok .nothing => (reassembler, .failed .conflict)
    | .ok .duplicate => reassembler.finish 0
    | .ok (.gap index) =>
      match reassembler.holes[index]? with
      | none => (reassembler, .ignored)
      | some hole => (reassembler.fill index hole fragment).finish fragment.memSize

/-- The end of a packet's reassembly, by `checkDoneOrMark` and the rest of `release`. -/
def Reassembler.retire (reassembler : Reassembler) : Reassembler :=
  { reassembler with done := true, holes := [] }

/-- `Process` with one caller at a time: a reassembler is released as soon as its packet is complete
or one of its fragments is refused. -/
def Reassembler.deliver (reassembler : Reassembler) (fragment : Fragment) : Reassembler × Outcome :=
  match reassembler.process fragment with
  | (reassembler, .failed error) => (reassembler.retire, .failed error)
  | (reassembler, .ready data proto memConsumed) =>
    (reassembler.retire, .ready data proto memConsumed)
  | (reassembler, outcome) => (reassembler, outcome)

def Reassembler.deliverAll (reassembler : Reassembler) : List Fragment → Reassembler
  | [] => reassembler
  | fragment :: rest => (reassembler.deliver fragment).1.deliverAll rest

/-- The fields of a `PacketFragmenter` that the cutting depends on. -/
structure PacketFragmenter where
  data : List Byte
  fragmentPayloadLen : Nat
  fragmentCount : Nat
  currentFragment : Nat
  fragmentOffset : Nat
deriving DecidableEq

/-- The count is computed in uint32; a length of 0 is a division by zero. -/
def makePacketFragmenter (data : List Byte) (fragmentPayloadLen : BitVec 32) : Option PacketFragmenter :=
  if fragmentPayloadLen = 0 then none
  else
    some
      { data
        fragmentPayloadLen := fragmentPayloadLen.toNat
        fragmentCount := ((BitVec.ofNat 32 data.length + fragmentPayloadLen - 1) / fragmentPayloadLen).toNat
        currentFragment := 0
        fragmentOffset := 0 }

structure Piece where
  data : List Byte
  offset : Nat
  more : Bool
deriving DecidableEq

/-- `none` is the panic after the last fragment. -/
def PacketFragmenter.buildNextFragment (pf : PacketFragmenter) : Option (PacketFragmenter × Piece) :=
  if pf.currentFragment ≥ pf.fragmentCount then none
  else
    let copied := pf.data.take pf.fragmentPayloadLen
    some
      ({ pf with
          data := pf.data.drop pf.fragmentPayloadLen
          fragmentOffset := pf.fragmentOffset + copied.length
          currentFragment := pf.currentFragment + 1 },
        { data := copied
          offset := pf.fragmentOffset
          more := pf.currentFragment + 1 ≠ pf.fragmentCount })

/-- The callers' loop, which ends with the piece after which there are no more. -/
def PacketFragmenter.pieces (pf : PacketFragmenter) : Nat → Option (List Piece)
  | 0 => none
  | fuel + 1 =>
    match pf.buildNextFragment with
    | none => none
    | some (pf, piece) =>
      if piece.more then (pf.pieces fuel).map (piece :: ·) else some [piece]

/-- All the pieces of a packet; there is a turn for each of them. -/
def fragmentPacket (data : List Byte) (fragmentPayloadLen : BitVec 32) : Option (List Piece) :=
  match makePacketFragmenter data fragmentPayloadLen with
  | none => none
  | some pf => pf.pieces (pf.fragmentCount + 1)

def Piece.fragment (piece : Piece) (proto memSize : Nat) : Fragment :=
  { first := piece.offset
    last := piece.offset + piece.data.length - 1
    more := piece.more
    proto
    data := piece.data
    memSize }

end BVisor.Network
