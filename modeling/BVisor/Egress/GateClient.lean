import BVisor.Data.Run

/-! The Sentry's client of the egress gate: one stream to the host, shared by all checks, on which
each request is answered by one verdict byte. -/

namespace BVisor.Egress

abbrev Byte := BitVec 8

def protocolVersion : Byte := 1
def verdictDeny : Byte := 0
def verdictAllow : Byte := 1
def verdictNeedMore : Byte := 2
def l7SniffLimit : Nat := 32 * 1024

inductive Kind where
  | tcp | udp | l7
deriving DecidableEq

def Kind.code : Kind → Byte
  | .tcp => 1
  | .udp => 2
  | .l7 => 3

/-- `tcpip.FullAddress`; an address is 4 or 16 bytes long, any other length is invalid. -/
structure FullAddress where
  addr : List Byte
  port : BitVec 16
deriving DecidableEq

def to4 (addr : List Byte) : List Byte :=
  if addr.length = 4 then addr
  else if addr.length = 16 ∧ addr.take 10 = List.replicate 10 0 ∧
      (addr.drop 10).take 2 = [0xff, 0xff] then addr.drop 12
  else []

def isLoopbackOrUnspecified (address : List Byte) : Bool :=
  let addr := if (to4 address).length = 4 then to4 address else address
  match addr.length with
  | 4 => addr[0]? == some 127 || addr.all (· == 0)
  | 16 => addr.all (· == 0) || ((addr.take 15).all (· == 0) && addr[15]? == some 1)
  | _ => false

def addr16 (addr : List Byte) : List Byte :=
  if addr.length = 4 then List.replicate 10 0 ++ [0xff, 0xff] ++ addr else addr

def bigEndianBytes {width : Nat} (count : Nat) (value : BitVec width) : List Byte :=
  ((List.range count).map fun i => value.extractLsb' (8 * i) 8).reverse

/-- The request: a length, then version, kind, address, port and the bytes to be judged. -/
def frame (kind : Kind) (dst : FullAddress) (prefixBytes : List Byte) : List Byte :=
  let body := [protocolVersion, kind.code] ++ addr16 dst.addr ++ bigEndianBytes 2 dst.port ++ prefixBytes
  bigEndianBytes 4 (BitVec.ofNat 32 body.length) ++ body

/-- What `CheckTCP`, `CheckUDP` and `CheckL7` tell their caller. -/
inductive Outcome where
  | allow | needMore | refused
deriving DecidableEq

/-- The switch on the verdict byte; `none` is a protocol mismatch. -/
def verdictOutcome (kind : Kind) (verdict : Byte) : Option Outcome :=
  if verdict = verdictDeny then some .refused
  else if verdict = verdictAllow then some .allow
  else if verdict = verdictNeedMore ∧ kind = .l7 then some .needMore
  else none

/-- Where a call stands, named after what it does next. -/
inductive Phase where
  | entering | trying | waiting | checkingDone | checkingDeadline | settingDeadline | writing
  | reading | closing | closingConn
  | releasing (outcome : Outcome)
  | returned (outcome : Outcome)
deriving DecidableEq

def Phase.holdsTurn : Phase → Bool
  | .entering | .trying | .waiting | .returned _ => false
  | _ => true

/-- The phases from the first use of the connection on, up to the end of a failed call's `Close`. -/
def Phase.exchanging : Phase → Bool
  | .settingDeadline | .writing | .reading | .closing | .closingConn => true
  | _ => false

structure Verdict where
  request : Nat
  byte : Byte
deriving DecidableEq

/-- One call. `read`, `failed` and `expiredEarly` record its history: the verdict it has read,
whether its I/O failed or gave no valid verdict, and whether its deadline had passed before it
compared the time with it. -/
structure Call where
  kind : Kind
  dst : FullAddress
  prefixBytes : List Byte
  phase : Phase
  expired : Bool
  read : Option Verdict
  failed : Bool
  expiredEarly : Bool
deriving DecidableEq

def Call.exempt (call : Call) : Bool :=
  isLoopbackOrUnspecified call.dst.addr

/-- A `sync.Once`: not begun, running in some call (or outside of all calls), or completed. -/
inductive CloseOnce where
  | idle
  | running (closer : Option Nat)
  | completed
deriving DecidableEq

structure Request where
  call : Nat
  frame : List Byte
deriving DecidableEq

/-- What the calls share. `turn` is the channel of capacity 1 with the call that filled it,
`requests` what the host has received and not answered, `verdicts` what it has sent and no call
has read. -/
structure Client where
  turn : Option Nat
  done : Bool
  closeOnce : CloseOnce
  connClosed : Bool
  requests : List Request
  verdicts : List Verdict
  closedOutside : Bool
deriving DecidableEq

structure State where
  client : Client
  calls : List Call
deriving DecidableEq

/-- The steps of a call; the arguments are what the environment decides. -/
inductive CallStep where
  | expire | enter | tryTurn | takeTurn | seeDone | seeTimer | checkDone | checkDeadline
  | setDeadline (succeeds : Bool)
  | write (succeeds delivered : Bool)
  | read (succeeds : Bool)
  | close | closeConn | release
deriving DecidableEq

inductive Event where
  | start (kind : Kind) (dst : FullAddress) (prefixBytes : List Byte)
  | call (id : Nat) (step : CallStep)
  | answer (verdict : Byte)
  | outsideClose | outsideCloseConn
deriving DecidableEq

/-- The phases before the call has compared the time with its deadline. -/
def Phase.beforeDeadlineCheck : Phase → Bool
  | .entering | .trying | .waiting | .checkingDone | .checkingDeadline => true
  | _ => false

/-- `CheckL7`'s bound on the prefix, then the address checks of `check`. -/
def Call.enter (call : Call) : Phase :=
  if call.kind = .l7 ∧ call.prefixBytes.length > l7SniffLimit then .returned .refused
  else if call.dst.addr.length ≠ 4 ∧ call.dst.addr.length ≠ 16 then .returned .refused
  else if isLoopbackOrUnspecified call.dst.addr then .returned .allow
  else .trying

def Call.fail (call : Call) : Call :=
  { call with phase := .closing, failed := true }

def Call.receive (call : Call) (verdict : Verdict) : Call :=
  match verdictOutcome call.kind verdict.byte with
  | some outcome => { call with phase := .releasing outcome, read := some verdict }
  | none => { call.fail with read := some verdict }

def Client.deliver (client : Client) (id : Nat) (call : Call) : Client :=
  { client with
    requests := client.requests ++ [⟨id, frame call.kind call.dst call.prefixBytes⟩] }

/-- The statements of `checkUntil`, of the checks before it and of `Close`, one by one. A step that
the call is not about to take, or that blocks, is not enabled. -/
def Call.step (call : Call) (id : Nat) (client : Client) (step : CallStep) : Option (Call × Client) :=
  match step, call.phase with
  | .expire, phase =>
    some ({ call with
      expired := true
      expiredEarly := call.expiredEarly || phase.beforeDeadlineCheck }, client)
  | .enter, .entering => some ({ call with phase := call.enter }, client)
  | .tryTurn, .trying =>
    if client.turn = none then
      some ({ call with phase := .checkingDone }, { client with turn := some id })
    else some ({ call with phase := .waiting }, client)
  | .takeTurn, .waiting =>
    if client.turn = none then
      some ({ call with phase := .checkingDone }, { client with turn := some id })
    else none
  | .seeDone, .waiting =>
    if client.done then some ({ call with phase := .returned .refused }, client) else none
  | .seeTimer, .waiting =>
    if call.expired then some ({ call with phase := .returned .refused }, client) else none
  | .checkDone, .checkingDone =>
    if client.done then some ({ call with phase := .releasing .refused }, client)
    else some ({ call with phase := .checkingDeadline }, client)
  | .checkDeadline, .checkingDeadline =>
    if call.expired then some ({ call with phase := .releasing .refused }, client)
    else some ({ call with phase := .settingDeadline }, client)
  | .setDeadline succeeds, .settingDeadline =>
    if !succeeds then some (call.fail, client)
    else if client.connClosed then none
    else some ({ call with phase := .writing }, client)
  | .write succeeds delivered, .writing =>
    -- a failed or short write may leave the host with a part of the frame, or with all of it
    if !succeeds then some (call.fail, if delivered then client.deliver id call else client)
    else if client.connClosed then none
    else some ({ call with phase := .reading }, client.deliver id call)
  | .read succeeds, .reading =>
    if !succeeds then some (call.fail, client)
    else if client.connClosed then none
    else
      match client.verdicts with
      | [] => none
      | verdict :: rest => some (call.receive verdict, { client with verdicts := rest })
  | .close, .closing =>
    match client.closeOnce with
    | .idle =>
      some ({ call with phase := .closingConn },
        { client with done := true, closeOnce := .running (some id) })
    | .running _ => none
    | .completed => some ({ call with phase := .releasing .refused }, client)
  | .closeConn, .closingConn =>
    some ({ call with phase := .releasing .refused },
      { client with connClosed := true, closeOnce := .completed })
  | .release, .releasing outcome =>
    some ({ call with phase := .returned outcome }, { client with turn := none })
  | _, _ => none

def Call.new (kind : Kind) (dst : FullAddress) (prefixBytes : List Byte) : Call :=
  { kind, dst, prefixBytes
    phase := .entering
    expired := false
    read := none
    failed := false
    expiredEarly := false }

def State.step (state : State) (event : Event) : Option State :=
  match event with
  | .start kind dst prefixBytes =>
    some { state with calls := state.calls ++ [.new kind dst prefixBytes] }
  | .call id step =>
    match state.calls[id]? with
    | none => none
    | some call =>
      match call.step id state.client step with
      | none => none
      | some (call, client) => some { client, calls := state.calls.set id call }
  | .answer verdict =>
    match state.client.requests with
    | [] => none
    | request :: rest =>
      some { state with client := { state.client with
        requests := rest
        verdicts := state.client.verdicts ++ [⟨request.call, verdict⟩] } }
  | .outsideClose =>
    match state.client.closeOnce with
    | .idle =>
      some { state with client := { state.client with
        done := true
        closeOnce := .running none
        closedOutside := true } }
    | .running _ => none
    | .completed => some state
  | .outsideCloseConn =>
    if state.client.closeOnce = .running none then
      some { state with client := { state.client with
        connClosed := true
        closeOnce := .completed } }
    else none

def State.initial : State :=
  { client :=
      { turn := none
        done := false
        closeOnce := .idle
        connClosed := false
        requests := []
        verdicts := []
        closedOutside := false }
    calls := [] }

end BVisor.Egress
