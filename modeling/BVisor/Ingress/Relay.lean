import BVisor.Data.Run

/-! The ingress relay: connections that the host carries into the sandbox over one stream. Its
goroutines are the dispatcher of host frames and, for each connection, a worker and a reader. What
is done under `Relay.mu` is one step; `writeMu` is held over several. -/

namespace BVisor.Ingress

abbrev Byte := BitVec 8

def maxDataChunk : Nat := 64 * 1024
def maxConnections : Nat := 1024
def queueDepth : Nat := 16

/-- A frame from the host, decoded; what `serve` and `dispatch` reject is `malformed`. -/
inductive HostFrame where
  | openConn (id : BitVec 32) (target : List Byte) (port : BitVec 16)
  | data (id : BitVec 32) (payload : List Byte)
  | closeWrite (id : BitVec 32)
  | close (id : BitVec 32)
  | malformed
deriving DecidableEq

inductive Out where
  | dialResult (ok : Bool)
  | data (payload : List Byte)
  | closeWrite | close
deriving DecidableEq

structure Frame where
  data : List Byte
  closeWrite : Bool
deriving DecidableEq

inductive ReadEnd where
  | more | eof | failed
deriving DecidableEq

/-- Where `dialAndServe`, its deferred calls and `retire` stand, named after what comes next. A
connection over the limit has no worker and is `turnedAway` by the dispatcher. -/
inductive WorkerPhase where
  | dialing | dialFailed | connected
  | reporting (ok : Bool)
  | writingResult (ok : Bool)
  | serving
  | handling (frame : Frame)
  | halfClosing | stopping | stoppingGuest | joining | closing | closingGuest | retiring | deleting
  | checkingClose | writingClose | done | turnedAway
deriving DecidableEq

/-- Where the goroutine that reads from the guest stands; it is `finished` when `readDone` is
closed. -/
inductive ReaderPhase where
  | absent | reading
  | sendingData (payload : List Byte) (ending : ReadEnd)
  | writingData (payload : List Byte) (ending : ReadEnd)
  | atEOF | sendingCloseWrite | writingCloseWrite | closing | closingGuest | finished
deriving DecidableEq

/-- A `carried` connection with its goroutines. `live` tells whether it is in `Relay.conns`. The
last fields are its history: the frames emitted for it, the frames that the host sent for it and
that found it open, those the worker has taken from the queue, whether one was discarded, the bytes
written to and read from the guest, and how often the guest's write side was closed. -/
structure Session where
  id : BitVec 32
  cancelled : Bool
  outbound : List Frame
  closing : Bool
  guestSet : Bool
  guestClosed : Bool
  live : Bool
  worker : WorkerPhase
  reader : ReaderPhase
  hostEOF : Bool
  guestEOF : Bool
  word : List Out
  sent : List Frame
  taken : List Frame
  dropped : Bool
  written : List Byte
  readBytes : List Byte
  halfCloses : Nat
deriving DecidableEq

inductive Holder where
  | dispatcher
  | worker (session : Nat)
  | reader (session : Nat)
deriving DecidableEq

/-- What the relay has done, in order: accepted an OPEN, or emitted a frame. Sessions are numbered
in the order of their OPENs. -/
inductive Entry where
  | opened (session : Nat)
  | emitted (session : Nat) (frame : Out)
deriving DecidableEq

structure Shared where
  ctxDone : Bool
  connClosed : Bool
  writeMu : Option Holder
  log : List Entry
deriving DecidableEq

inductive Dispatcher where
  | reading
  | refusing (session : Nat) (frame : Out)
  | writingRefusal (session : Nat) (frame : Out)
  | queueing (session : Nat) (frame : Frame)
  | closing (session : Nat)
  | closingGuest (session : Nat)
  | stopped
deriving DecidableEq

structure Relay where
  shared : Shared
  sessions : List Session
  dispatcher : Dispatcher
deriving DecidableEq

/-- Locking `writeMu` to write a frame, up to the look at `r.ctx`: `false` is `ErrRelayClosed`. -/
def Shared.lock (shared : Shared) (holder : Holder) : Option (Shared × Bool) :=
  if shared.writeMu ≠ none then none
  else if shared.ctxDone then some (shared, false)
  else some ({ shared with writeMu := some holder }, true)

/-- The rest of `writeLocked` and the unlocking. A failed write shuts the relay down. -/
def Shared.write (shared : Shared) (session : Nat) (frame : Out) (succeeds : Bool) : Option Shared :=
  if !succeeds then some { shared with writeMu := none, ctxDone := true }
  else if shared.connClosed then none
  else some { shared with
    writeMu := none
    log := shared.log ++ [.emitted session frame] }

def Session.emit (session : Session) (frame : Out) (succeeds : Bool) : Session :=
  if succeeds then { session with word := session.word ++ [frame] } else session

def Session.closeGuest (session : Session) : Session :=
  { session with guestClosed := session.guestClosed || session.guestSet }

/-- The steps of a worker; the arguments are what the dialer and the guest do, and which ready case
the `select` takes. -/
inductive WorkerStep where
  | dialed (ok : Bool)
  | checkCtx | setGuest | lock
  | write (succeeds : Bool)
  | seeDone | seeReader | take
  | handle (count : Nat) (succeeds : Bool)
  | halfClose (supported succeeds : Bool)
  | cancel | closeGuest | join | delete | checkClose
deriving DecidableEq

def Session.afterData (session : Session) (frame : Frame) : WorkerPhase :=
  if frame.closeWrite && !session.hostEOF then .halfClosing else .serving

def Session.workerStep (session : Session) (index : Nat) (shared : Shared) (step : WorkerStep) :
    Option (Session × Shared) :=
  match step, session.worker with
  | .dialed ok, .dialing =>
    some ({ session with worker := if ok then .connected else .dialFailed }, shared)
  | .checkCtx, .dialFailed =>
    some ({ session with
      worker := if session.cancelled then .closing else .reporting false }, shared)
  | .setGuest, .connected =>
    if session.cancelled then some ({ session with worker := .closing }, shared)
    else some ({ session with guestSet := true, worker := .reporting true }, shared)
  | .lock, .reporting ok =>
    match shared.lock (.worker index) with
    | none => none
    | some (shared, true) => some ({ session with worker := .writingResult ok }, shared)
    | some (shared, false) => some ({ session with worker := .closing }, shared)
  | .write succeeds, .writingResult ok =>
    match shared.write index (.dialResult ok) succeeds with
    | none => none
    | some shared =>
      -- the reader starts after a successful report of a successful dial
      if succeeds && ok then
        some ({ session.emit (.dialResult ok) succeeds with
          worker := .serving, reader := .reading }, shared)
      else
        some ({ session.emit (.dialResult ok) succeeds with worker := .closing }, shared)
  | .seeDone, .serving =>
    if session.cancelled then some ({ session with worker := .stopping }, shared) else none
  | .seeReader, .serving =>
    if session.reader = .finished ∧ session.guestEOF = false then
      some ({ session with
        guestEOF := true
        worker := if session.hostEOF then .stopping else .serving }, shared)
    else none
  | .take, .serving =>
    match session.outbound with
    | [] => none
    | frame :: rest =>
      some ({ session with
        outbound := rest
        taken := session.taken ++ [frame]
        worker := .handling frame }, shared)
  | .handle count succeeds, .handling frame =>
    if frame.data = [] then some ({ session with worker := session.afterData frame }, shared)
    else if session.hostEOF then some ({ session with worker := .stopping }, shared)
    else if !succeeds then
      some ({ session with
        written := session.written ++ frame.data.take count
        worker := .stopping }, shared)
    else if session.guestClosed then none
    else
      some ({ session with
        written := session.written ++ frame.data
        worker := session.afterData frame }, shared)
  | .halfClose supported succeeds, .halfClosing =>
    if !supported then some ({ session with worker := .stopping }, shared)
    else if !succeeds then
      some ({ session with halfCloses := session.halfCloses + 1, worker := .stopping }, shared)
    else
      some ({ session with
        halfCloses := session.halfCloses + 1
        hostEOF := true
        worker := if session.guestEOF then .stopping else .serving }, shared)
  | .cancel, .stopping =>
    some ({ session with cancelled := true, worker := .stoppingGuest }, shared)
  | .closeGuest, .stoppingGuest => some ({ session.closeGuest with worker := .joining }, shared)
  | .join, .joining =>
    if session.reader = .finished then some ({ session with worker := .closing }, shared)
    else none
  | .cancel, .closing => some ({ session with cancelled := true, worker := .closingGuest }, shared)
  | .closeGuest, .closingGuest => some ({ session.closeGuest with worker := .retiring }, shared)
  | .lock, .retiring =>
    if shared.writeMu = none then
      some ({ session with worker := .deleting },
        { shared with writeMu := some (.worker index) })
    else none
  | .delete, .deleting =>
    if session.live then some ({ session with live := false, worker := .checkingClose }, shared)
    else some ({ session with worker := .done }, { shared with writeMu := none })
  | .checkClose, .checkingClose =>
    if shared.ctxDone then
      some ({ session with worker := .done }, { shared with writeMu := none })
    else some ({ session with worker := .writingClose }, shared)
  | .write succeeds, .writingClose =>
    match shared.write index .close succeeds with
    | none => none
    | some shared => some ({ session.emit .close succeeds with worker := .done }, shared)
  | _, _ => none

inductive ReaderStep where
  | read (bytes : List Byte) (ending : ReadEnd)
  | checkCtx | lock
  | write (succeeds : Bool)
  | cancel | closeGuest
deriving DecidableEq

/-- What the reader does after the bytes of a read have been sent. -/
def ReadEnd.next : ReadEnd → ReaderPhase
  | .more => .reading
  | .eof => .atEOF
  | .failed => .closing

def Session.readerStep (session : Session) (index : Nat) (shared : Shared) (step : ReaderStep) :
    Option (Session × Shared) :=
  match step, session.reader with
  | .read bytes ending, .reading =>
    if bytes.length > maxDataChunk ∨ (bytes ≠ [] ∧ session.guestClosed) then none
    else
      some ({ session with
        readBytes := session.readBytes ++ bytes
        reader := if bytes = [] then ending.next else .sendingData bytes ending }, shared)
  | .lock, .sendingData payload ending =>
    match shared.lock (.reader index) with
    | none => none
    | some (shared, true) => some ({ session with reader := .writingData payload ending }, shared)
    | some (shared, false) => some ({ session with reader := .closing }, shared)
  | .write succeeds, .writingData payload ending =>
    match shared.write index (.data payload) succeeds with
    | none => none
    | some shared =>
      some ({ session.emit (.data payload) succeeds with
        reader := if succeeds then ending.next else .closing }, shared)
  | .checkCtx, .atEOF =>
    some ({ session with
      reader := if session.cancelled then .closing else .sendingCloseWrite }, shared)
  | .lock, .sendingCloseWrite =>
    match shared.lock (.reader index) with
    | none => none
    | some (shared, true) => some ({ session with reader := .writingCloseWrite }, shared)
    | some (shared, false) => some ({ session with reader := .closing }, shared)
  | .write succeeds, .writingCloseWrite =>
    match shared.write index .closeWrite succeeds with
    | none => none
    | some shared =>
      some ({ session.emit .closeWrite succeeds with
        reader := if succeeds then .finished else .closing }, shared)
  | .cancel, .closing => some ({ session with cancelled := true, reader := .closingGuest }, shared)
  | .closeGuest, .closingGuest => some ({ session.closeGuest with reader := .finished }, shared)
  | _, _ => none

def Session.new (id : BitVec 32) : Session :=
  { id
    cancelled := false
    outbound := []
    closing := false
    guestSet := false
    guestClosed := false
    live := true
    worker := .dialing
    reader := .absent
    hostEOF := false
    guestEOF := false
    word := []
    sent := []
    taken := []
    dropped := false
    written := []
    readBytes := []
    halfCloses := 0 }

/-- An OPEN over the limit is not entered in `conns` and gets no worker. -/
def Session.overLimit (id : BitVec 32) : Session :=
  { Session.new id with live := false, worker := .turnedAway }

def Relay.liveCount (relay : Relay) : Nat :=
  relay.sessions.countP Session.live

def Relay.lookup (relay : Relay) (id : BitVec 32) : Option Nat :=
  relay.sessions.findIdx? fun session => session.live && session.id == id

def Relay.modify (relay : Relay) (index : Nat) (change : Session → Session) : Relay :=
  { relay with sessions := relay.sessions.modify index change }

def Relay.openSession (relay : Relay) (session : Session) (dispatcher : Dispatcher) : Relay :=
  { shared :=
      { relay.shared with log := relay.shared.log ++ [.opened relay.sessions.length] }
    sessions := relay.sessions ++ [session]
    dispatcher }

def Relay.dispatchData (relay : Relay) (id : BitVec 32) (frame : Frame) : Relay :=
  match relay.lookup id with
  | none => relay
  | some index =>
    if (relay.sessions[index]?.map Session.closing).getD true then relay
    else
      { relay.modify index fun session => { session with sent := session.sent ++ [frame] } with
        dispatcher := .queueing index frame }

def Relay.dispatch (relay : Relay) : HostFrame → Relay
  | .malformed => { relay with dispatcher := .stopped }
  | .openConn id _ _ =>
    if relay.shared.ctxDone then relay
    else
      match relay.lookup id with
      | some _ => { relay with dispatcher := .stopped }
      | none =>
        if relay.liveCount ≥ maxConnections then
          relay.openSession (.overLimit id) (.refusing relay.sessions.length (.dialResult false))
        else relay.openSession (.new id) .reading
  | .data id payload =>
    if payload.length > maxDataChunk then { relay with dispatcher := .stopped }
    else relay.dispatchData id { data := payload, closeWrite := false }
  | .closeWrite id => relay.dispatchData id { data := [], closeWrite := true }
  | .close id =>
    match relay.lookup id with
    | none => relay
    | some index =>
      if (relay.sessions[index]?.map Session.closing).getD true then relay
      else
        { relay.modify index fun session => { session with closing := true } with
          dispatcher := .closing index }

inductive DispatcherStep where
  | stop | lock
  | write (succeeds : Bool)
  | enqueue | drop | cancel | closeGuest
deriving DecidableEq

/-- The steps of `dispatch` after the lookup, and the end of `serve`. -/
def Relay.dispatcherStep (relay : Relay) (step : DispatcherStep) : Option Relay :=
  match step, relay.dispatcher with
  | .stop, .reading => some { relay with dispatcher := .stopped }
  | .lock, .refusing index frame =>
    match relay.shared.lock .dispatcher with
    | none => none
    | some (shared, true) =>
      some { relay with shared, dispatcher := .writingRefusal index frame }
    | some (shared, false) =>
      some { relay.modify index fun session => { session with worker := .done } with
        shared, dispatcher := .stopped }
  | .write succeeds, .writingRefusal index frame =>
    match relay.shared.write index frame succeeds with
    | none => none
    | some shared =>
      if !succeeds then
        some { relay.modify index fun session => { session with worker := .done } with
          shared, dispatcher := .stopped }
      else if frame = .close then
        some { relay.modify index fun session =>
            { session.emit frame true with worker := .done } with
          shared, dispatcher := .reading }
      else
        some { relay.modify index fun session => session.emit frame true with
          shared, dispatcher := .refusing index .close }
  | .enqueue, .queueing index frame =>
    match relay.sessions[index]? with
    | none => none
    | some session =>
      if session.outbound.length < queueDepth then
        some { relay.modify index fun session =>
            { session with outbound := session.outbound ++ [frame] } with
          dispatcher := .reading }
      else none
  | .drop, .queueing index _ =>
    match relay.sessions[index]? with
    | none => none
    | some session =>
      if session.cancelled then
        some { relay.modify index fun session => { session with dropped := true } with
          dispatcher := .reading }
      else none
  | .cancel, .closing index =>
    some { relay.modify index fun session => { session with cancelled := true } with
      dispatcher := .closingGuest index }
  | .closeGuest, .closingGuest index =>
    some { relay.modify index Session.closeGuest with dispatcher := .reading }
  | _, _ => none

/-- What happens in the relay. `shutdown` is the part of `Relay.shutdown` under `mu`; then the
transport is closed, the contexts of the connections follow and their guests are closed. -/
inductive Event where
  | host (frame : HostFrame)
  | dispatcher (step : DispatcherStep)
  | worker (session : Nat) (step : WorkerStep)
  | reader (session : Nat) (step : ReaderStep)
  | shutdown | closeConn
  | propagate (session : Nat)
  | shutdownGuest (session : Nat)
deriving DecidableEq

def Relay.setSession (relay : Relay) (index : Nat) (result : Session × Shared) : Relay :=
  { relay with
    shared := result.2
    sessions := relay.sessions.set index result.1 }

def Relay.step (relay : Relay) : Event → Option Relay
  | .host frame => if relay.dispatcher = .reading then some (relay.dispatch frame) else none
  | .dispatcher step => relay.dispatcherStep step
  | .worker index step =>
    match relay.sessions[index]? with
    | none => none
    | some session => (session.workerStep index relay.shared step).map (relay.setSession index)
  | .reader index step =>
    match relay.sessions[index]? with
    | none => none
    | some session => (session.readerStep index relay.shared step).map (relay.setSession index)
  | .shutdown => some { relay with shared := { relay.shared with ctxDone := true } }
  | .closeConn =>
    if relay.shared.ctxDone then
      some { relay with shared := { relay.shared with connClosed := true } }
    else none
  | .propagate index =>
    if relay.shared.ctxDone then
      some (relay.modify index fun session => { session with cancelled := true })
    else none
  | .shutdownGuest index =>
    if relay.shared.ctxDone then some (relay.modify index Session.closeGuest) else none

def Relay.initial : Relay :=
  { shared :=
      { ctxDone := false
        connClosed := false
        writeMu := none
        log := [] }
    sessions := []
    dispatcher := .reading }

end BVisor.Ingress
