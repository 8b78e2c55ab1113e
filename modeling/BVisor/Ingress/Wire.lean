import BVisor.Data.BigEndian
import BVisor.Ingress.Relay

/-! The bytes of the relay's stream: how frames are marshaled, and how `serve` reads them. -/

namespace BVisor.Ingress

open Data

def version : Byte := 1
def kindOpen : Byte := 1
def kindDialResult : Byte := 2
def kindData : Byte := 3
def kindCloseWrite : Byte := 4
def kindClose : Byte := 5
def dialOK : Byte := 1
def dialRefused : Byte := 2
def fixedHeaderLen : Nat := 1 + 1 + 4 + 16 + 2
def minFrameBody : Nat := 6
def maxFrameBody : Nat := fixedHeaderLen + maxDataChunk

/-- `none` is the panic on a body whose length is not a uint32. -/
def withLen (body : List Byte) : Option (List Byte) :=
  if body.length > 2 ^ 32 - 1 then none else some (bigEndian 4 body.length ++ body)

def header (kind : Byte) (connID : BitVec 32) : List Byte :=
  [version, kind] ++ bigEndian 4 connID.toNat

def marshalOpen (connID : BitVec 32) (target : List Byte) (port : BitVec 16) : Option (List Byte) :=
  withLen (header kindOpen connID ++ target ++ bigEndian 2 port.toNat)

def marshalData (connID : BitVec 32) (payload : List Byte) : Option (List Byte) :=
  withLen (header kindData connID ++ payload)

def marshalControl (kind : Byte) (connID : BitVec 32) : Option (List Byte) :=
  withLen (header kind connID)

def marshalCloseWrite (connID : BitVec 32) : Option (List Byte) :=
  marshalControl kindCloseWrite connID

def marshalClose (connID : BitVec 32) : Option (List Byte) :=
  marshalControl kindClose connID

def marshalDialResult (connID : BitVec 32) (status : Byte) : Option (List Byte) :=
  withLen (header kindDialResult connID ++ [status])

def HostFrame.marshal : HostFrame → Option (List Byte)
  | .openConn id target port => marshalOpen id target port
  | .data id payload => marshalData id payload
  | .closeWrite id => marshalCloseWrite id
  | .close id => marshalClose id
  | .malformed => none

def Out.marshal (connID : BitVec 32) : Out → Option (List Byte)
  | .dialResult ok => marshalDialResult connID (if ok then dialOK else dialRefused)
  | .data payload => marshalData connID payload
  | .closeWrite => marshalCloseWrite connID
  | .close => marshalClose connID

/-- A frame as the host's side can build it: a target is a 16-byte array and DATA is limited. -/
def HostFrame.Sendable : HostFrame → Prop
  | .openConn _ target _ => target.length = 16
  | .data _ payload => payload.length ≤ maxDataChunk
  | .closeWrite _ | .close _ => True
  | .malformed => False

/-- The checks of `serve` and `dispatch` on a body, which has at least `minFrameBody` bytes. -/
def parse (body : List Byte) : HostFrame :=
  let kind := body.getD 1 0
  let id := BitVec.ofNat 32 (ofBigEndian ((body.drop 2).take 4))
  if body.getD 0 0 ≠ version then .malformed
  else if kind = kindOpen then
    if body.length ≠ fixedHeaderLen then .malformed
    else
      .openConn id ((body.drop 6).take 16) (BitVec.ofNat 16 (ofBigEndian ((body.drop 22).take 2)))
  else if kind = kindData then
    if body.length - minFrameBody > maxDataChunk then .malformed else .data id (body.drop 6)
  else if kind = kindCloseWrite ∨ kind = kindClose then
    if body.length ≠ minFrameBody then .malformed
    else if kind = kindClose then .close id
    else .closeWrite id
  else .malformed

/-- The buffer that `io.ReadFull` is filling: `lenBuf` or a body of the announced size. -/
inductive Phase where
  | length (got : List Byte)
  | body (size : Nat) (got : List Byte)
deriving DecidableEq

def Phase.wanted : Phase → Nat
  | .length got => 4 - got.length
  | .body size got => size - got.length

/-- `r.conn.Read` has returned `chunk`. A frame is handed to `dispatch` when its body is complete,
and given up as malformed when its length is wrong. -/
def Phase.receive (phase : Phase) (chunk : List Byte) : Phase × Option HostFrame :=
  match phase with
  | .length got =>
    let got := got ++ chunk
    if got.length < 4 then (.length got, none)
    else
      let n := ofBigEndian got
      if n < minFrameBody ∨ n > maxFrameBody then (.length [], some .malformed)
      else (.body n [], none)
  | .body size got =>
    let got := got ++ chunk
    if got.length < size then (.body size got, none) else (.length [], some (parse got))

/-- What `serve` returns: nil, or the error of a failed read, of a stream that ends inside a frame
or of `dispatch` and the checks before it. -/
inductive Outcome where
  | clean | readFailed | cutShort | refused
deriving DecidableEq

/-- The relay with the stream it reads from. `pending` is what the host has written and `serve` has
not read; `frames` is what was handed to `dispatch`. -/
structure Wire where
  relay : Relay
  phase : Phase
  pending : List Byte
  frames : List HostFrame
  result : Option Outcome
deriving DecidableEq

def Wire.Reading (wire : Wire) : Prop :=
  wire.result = none ∧ wire.relay.dispatcher = .reading

instance (wire : Wire) : Decidable wire.Reading :=
  inferInstanceAs (Decidable (_ ∧ _))

inductive WireEvent where
  | read (count : Nat)
  | eof | readFails
  | relay (event : Event)
deriving DecidableEq

def Wire.settle (wire : Wire) : Wire :=
  if wire.result = none ∧ wire.relay.dispatcher = .stopped then
    { wire with result := some .refused }
  else wire

def Wire.finish (wire : Wire) (outcome : Outcome) : Wire :=
  { wire with
    relay := { wire.relay with dispatcher := .stopped }
    result := some outcome }

def Wire.hand (wire : Wire) (frame : HostFrame) : Wire :=
  { wire with
    relay := wire.relay.dispatch frame
    frames := wire.frames ++ [frame] }.settle

def Wire.read (wire : Wire) (count : Nat) : Wire :=
  let (phase, frame) := wire.phase.receive (wire.pending.take count)
  let wire := { wire with phase, pending := wire.pending.drop count }
  match frame with
  | none => wire
  | some frame => wire.hand frame

/-- A read returns at most what is wanted and what there is. Host frames and the end of `serve`
come from the bytes only. -/
def Wire.step (wire : Wire) : WireEvent → Option Wire
  | .read count =>
    if wire.Reading ∧ wire.relay.shared.connClosed = false ∧ count ≤ wire.phase.wanted ∧
        count ≤ wire.pending.length then
      some (wire.read count)
    else none
  | .eof =>
    if wire.Reading ∧ wire.pending = [] then
      some (wire.finish
        (if wire.phase = .length [] ∨ wire.relay.shared.ctxDone then .clean else .cutShort))
    else none
  | .readFails =>
    if wire.Reading then
      some (wire.finish (if wire.relay.shared.ctxDone then .clean else .readFailed))
    else none
  | .relay (.host _) => none
  | .relay (.dispatcher .stop) => none
  | .relay event => (wire.relay.step event).map fun relay => { wire with relay }.settle

def Wire.initial (stream : List Byte) : Wire :=
  { relay := .initial
    phase := .length []
    pending := stream
    frames := []
    result := none }

end BVisor.Ingress
