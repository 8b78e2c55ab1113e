import Mathlib

/-! The descriptors that a server donates with a response: from the socket or the channel through
the tracker of the communicator to the caller of `SndRcvMessage`. -/

namespace BVisor.Lisafs.Donation

open List

abbrev FD := Nat

abbrev MID := Nat

/-- The descriptors of one call: all that were received, those in the tracker, those closed. -/
structure Ledger where
  received : List FD
  fds : List FD
  closed : List FD
  deriving DecidableEq

namespace Ledger

def empty : Ledger := ⟨[], [], []⟩

def receive (ledger : Ledger) (fds : List FD) : Ledger :=
  { ledger with received := ledger.received ++ fds }

def trackFD (ledger : Ledger) (fd : FD) : Ledger :=
  { ledger with fds := ledger.fds ++ [fd] }

def releaseFDs (ledger : Ledger) : List FD × Ledger :=
  (ledger.fds, { ledger with fds := [] })

def closeFDs (ledger : Ledger) (fds : List Int) : Ledger :=
  { ledger with closed := ledger.closed ++ (fds.filter (0 ≤ ·)).map Int.toNat }

end Ledger

inductive Error where
  | eio | eopnotsupp | einval
  | errno (code : Nat)
  deriving DecidableEq

abbrev Reply := Except Error (MID × Nat) × Ledger

/-! The channel. -/

def chanHeaderLen : Nat := 4

/-- What the server does to a channel: the length it sends back if the transport works, the header
in the shared memory and what the reads from the socket for descriptors give. -/
structure Flip where
  dataLen : Option Nat
  message : MID
  numFDs : Nat
  fdChan : List (Option FD)
  deriving DecidableEq

def rcvFDs : Nat → List (Option FD) → Ledger → Ledger
  | count + 1, some fd :: rest, ledger => rcvFDs count rest ((ledger.receive [fd]).trackFD fd)
  | _, _, ledger => ledger

def Flip.rcvMsg (flip : Flip) (dataLen : Nat) (ledger : Ledger) : Reply :=
  if dataLen < chanHeaderLen then (.error .eio, ledger)
  else (.ok (flip.message, dataLen - chanHeaderLen), rcvFDs flip.numFDs flip.fdChan ledger)

def Flip.sndRcvMessage (flip : Flip) (ledger : Ledger) : Reply :=
  match flip.dataLen with
  | none => (.error .eio, ledger)
  | some dataLen => flip.rcvMsg dataLen ledger

/-! The socket. -/

def sockHeaderLen : Nat := 8

/-- One `ReadVec`: it fails, or it gives bytes, none of them at the end of the stream. The
descriptors are those the server attached. -/
inductive Read where
  | failed
  | ended (attached : List FD)
  | bytes (more : Nat) (attached : List FD)
  deriving DecidableEq

/-- The descriptors for which a control message has room after `EnableFDs`. -/
def room (count : Nat) : Nat := count + count % 2

/-- The loop of `readFrom`; without a further read it waits forever. -/
def readLoop (size : Nat) : List Read → (got enabled : Nat) → List FD → (fdInit : Bool) → Ledger →
    Option (Option (List FD) × List Read × Ledger)
  | reads, got, enabled, fds, fdInit, ledger =>
    if size ≤ got then some (some fds, reads, ledger)
    else
      match reads with
      | [] => none
      | .failed :: rest => some (none, rest, ledger)
      | .ended attached :: rest =>
        let arrived := attached.take (room enabled)
        some (none, rest, (ledger.receive arrived).closeFDs (arrived.map Int.ofNat))
      | .bytes more attached :: rest =>
        let arrived := attached.take (room enabled)
        let ledger := ledger.receive arrived
        if fdInit then readLoop size rest (got + (more + 1)) enabled fds true ledger
        else readLoop size rest (got + (more + 1)) 0 arrived true ledger

def readFrom (size wantFDs : Nat) (reads : List Read) (ledger : Ledger) :
    Option (Option (List FD) × List Read × Ledger) :=
  readLoop size reads 0 wantFDs [] false ledger

/-- What the server does to the socket, with the header that it sends. -/
structure Stream where
  sendFails : Bool
  reads : List Read
  payloadLen : Nat
  message : MID
  deriving DecidableEq

def Stream.rcvMsg (stream : Stream) (wantFDs : Nat) (ledger : Ledger) : Option Reply :=
  match readFrom sockHeaderLen wantFDs stream.reads ledger with
  | none => none
  | some (none, _, ledger) => some (.error .eio, ledger)
  | some (some fds, rest, ledger) =>
    let ledger := fds.foldl Ledger.trackFD ledger
    if stream.payloadLen = 0 then some (.ok (stream.message, 0), ledger)
    else
      match readFrom stream.payloadLen 0 rest ledger with
      | none => none
      | some (none, _, ledger) => some (.error .eio, ledger)
      | some (some _, _, ledger) => some (.ok (stream.message, stream.payloadLen), ledger)

def Stream.sndRcvMessage (stream : Stream) (wantFDs : Nat) (ledger : Ledger) : Option Reply :=
  if stream.sendFails then some (.error .eio, ledger) else stream.rcvMsg wantFDs ledger

/-! The client. -/

inductive Communicator where
  | channel (flip : Flip)
  | sockCommunicator (stream : Stream)
  deriving DecidableEq

def Communicator.sndRcvMessage (wantFDs : Nat) : Communicator → Ledger → Option Reply
  | .channel flip, ledger => some (flip.sndRcvMessage ledger)
  | .sockCommunicator stream, ledger => stream.sndRcvMessage wantFDs ledger

structure Client where
  supported : List Bool
  maxMessageSize : Nat

structure Result where
  err : Option Error
  respFDs : List Int
  ledger : Ledger
  deriving DecidableEq

def errorMessage : MID := 0

/-- The received descriptors go to the buffer of the caller, as many as it has room for, and the
rest is closed. The tests around this in the source only skip what is empty. -/
def handOver (respFDs : List Int) (ledger : Ledger) : List Int × Ledger :=
  let (rcvFDs, ledger) := ledger.releaseFDs
  let wantFDs := respFDs.length
  let numFDCopied := min wantFDs rcvFDs.length
  ((rcvFDs.take numFDCopied).map Int.ofNat ++ List.replicate (wantFDs - numFDCopied) (-1),
    ledger.closeFDs ((rcvFDs.drop numFDCopied).map Int.ofNat))

/-- The call; `errno` is the error in an `ErrorResp`, and `respUnmarshal` says whether the payload
of the response that is expected was decoded. -/
def Client.sndRcvMessage (c : Client) (m : MID) (payloadLen : Nat) (respFDs : List Int)
    (comm : Communicator) (errno : Nat) (respUnmarshal : Bool) : Option Result :=
  if c.supported.getD m false = false then some ⟨some .eopnotsupp, respFDs, .empty⟩
  else if c.maxMessageSize < payloadLen then some ⟨some .eio, respFDs, .empty⟩
  else if 255 < respFDs.length then some ⟨some .einval, respFDs, .empty⟩
  else
    match comm.sndRcvMessage respFDs.length .empty with
    | none => none
    | some (reply, ledger) =>
      let (respFDs, ledger) := handOver respFDs ledger
      let closing (err : Error) := some ⟨some err, respFDs, ledger.closeFDs respFDs⟩
      match reply with
      | .error err => closing err
      | .ok (respM, respPayloadLen) =>
        if c.maxMessageSize < respPayloadLen then closing .eio
        else if respM = errorMessage then closing (.errno errno)
        else if respM ≠ m then closing .einval
        else if respUnmarshal = false then some ⟨some .eio, respFDs, ledger⟩
        else some ⟨none, respFDs, ledger⟩

/-! Where each descriptor goes. -/

/-- Every descriptor received so far is closed or in the tracker. -/
def Ledger.Balanced (ledger : Ledger) : Prop :=
  ledger.received = ledger.closed ++ ledger.fds

open Ledger

theorem closeFDs_received (ledger : Ledger) (fds : List FD) (unused : Nat) :
    (ledger.closeFDs (fds.map Int.ofNat ++ replicate unused (-1))).closed =
      ledger.closed ++ fds := by
  have all : (fds.map Int.ofNat).filter (0 ≤ ·) = fds.map Int.ofNat := by
    rw [filter_eq_self]
    simp
  simp only [closeFDs, filter_append, all]
  simp [Function.comp_def]

variable {ledger after : Ledger} {fds : List FD} {wantFDs : Nat} {reads rest : List Read}
  {out : Option (List FD)} {reply : Reply}

theorem rcvFDs_balanced (count : Nat) (fdChan : List (Option FD)) (balanced : ledger.Balanced) :
    (rcvFDs count fdChan ledger).Balanced := by
  fun_induction rcvFDs count fdChan ledger with
  | case1 count fd rest ledger ih =>
    apply ih
    simp only [Ledger.Balanced, receive, trackFD] at balanced ⊢
    rw [balanced, append_assoc]
  | case2 => exact balanced

theorem foldl_trackFD (fds : List FD) (ledger : Ledger) :
    fds.foldl trackFD ledger = { ledger with fds := ledger.fds ++ fds } := by
  induction fds generalizing ledger with
  | nil => simp
  | cons fd rest ih => simp [ih, trackFD]

/-- Without room in the control message no descriptor arrives. -/
theorem readLoop_unarmed {size got : Nat} {fdInit : Bool}
    (read : readLoop size reads got 0 fds fdInit ledger = some (out, rest, after)) :
    after = ledger ∧ (fdInit = true → out = none ∨ out = some fds) := by
  induction reads generalizing got fds fdInit with
  | nil =>
    unfold readLoop at read
    split at read
    · cases read
      exact ⟨rfl, fun _ => .inr rfl⟩
    · cases read
  | cons first more ih =>
    unfold readLoop at read
    split at read
    · cases read
      exact ⟨rfl, fun _ => .inr rfl⟩
    cases first with
    | failed =>
      cases read
      exact ⟨rfl, fun _ => .inl rfl⟩
    | ended attached =>
      cases read
      exact ⟨by simp [room, receive, closeFDs], fun _ => .inl rfl⟩
    | bytes more attached =>
      simp only [room, Nat.zero_mod, Nat.add_zero, take_zero, receive, append_nil] at read
      split at read
      · exact ⟨(ih read).1, fun _ => (ih read).2 rfl⟩
      · next fresh => exact ⟨(ih read).1, fun started => absurd started fresh⟩

/-- The read of a header fails after its first part came with descriptors. -/
def Communicator.Loses (wantFDs : Nat) : Communicator → Prop
  | .channel _ => False
  | .sockCommunicator stream => stream.sendFails = false ∧ ∃ more attached tail rest after,
      stream.reads = .bytes more attached :: tail ∧ attached.take (room wantFDs) ≠ [] ∧
      readFrom sockHeaderLen wantFDs stream.reads .empty = some (none, rest, after)

theorem readFrom_header
    (read : readFrom sockHeaderLen wantFDs reads .empty = some (out, rest, after)) :
    after.fds = [] ∧
      ((out = none ∧ after.received = after.closed ∧ ∀ more attached tail, reads ≠ .bytes more attached :: tail) ∨
      ∃ more attached tail, reads = .bytes more attached :: tail ∧
        after = ⟨attached.take (room wantFDs), [], []⟩ ∧
        (out = none ∨ out = some (attached.take (room wantFDs)))) := by
  unfold readFrom readLoop at read
  rw [if_neg (by decide)] at read
  split at read
  · cases read
  · cases read
    exact ⟨rfl, .inl ⟨rfl, rfl, by simp⟩⟩
  · next attached _ =>
    cases read
    have closed := closeFDs_received (empty.receive (attached.take (room wantFDs)))
      (attached.take (room wantFDs)) 0
    rw [replicate_zero, append_nil] at closed
    exact ⟨rfl, .inl ⟨rfl, closed.symm, by simp⟩⟩
  · next more attached tail =>
    obtain ⟨same, found⟩ := readLoop_unarmed read
    exact ⟨same ▸ rfl, .inr ⟨more, attached, tail, rfl, same, found rfl⟩⟩

/-- The reply brings a balanced ledger, or it is the error of a header that lost descriptors. -/
def Settled (loses : Prop) (reply : Reply) : Prop :=
  (¬ loses ∧ reply.2.Balanced) ∨
    (loses ∧ ∃ fds ≠ [], reply = (.error .eio, ⟨fds, [], []⟩))

theorem Stream.rcvMsg_settled {stream : Stream} (sends : stream.sendFails = false)
    (received : stream.rcvMsg wantFDs .empty = some reply) :
    Settled ((Communicator.sockCommunicator stream).Loses wantFDs) reply := by
  unfold Stream.rcvMsg at received
  split at received
  · cases received
  · next rest ledger failed =>
    cases received
    obtain ⟨untracked, ⟨-, closed, noBytes⟩ | ⟨more, attached, tail, reads, same, -⟩⟩ :=
      readFrom_header failed
    · refine .inl ⟨?_, by simp only [Ledger.Balanced, untracked, closed, append_nil]⟩
      rintro ⟨-, more, attached, tail, -, -, reads, -⟩
      exact noBytes more attached tail reads
    subst same
    by_cases brought : attached.take (room wantFDs) = []
    · refine .inl ⟨?_, by simp [Ledger.Balanced, brought]⟩
      rintro ⟨-, _, _, _, _, _, otherReads, donated, -⟩
      rw [reads] at otherReads
      cases otherReads
      exact donated brought
    · exact .inr ⟨⟨sends, more, attached, tail, rest, _, reads, brought, failed⟩, _, brought, rfl⟩
  · next fds rest ledger header =>
    have kept : ¬ (Communicator.sockCommunicator stream).Loses wantFDs := by
      rintro ⟨-, _, _, _, _, _, -, -, failed⟩
      rw [header] at failed
      cases failed
    have tracked : (fds.foldl trackFD ledger).Balanced := by
      obtain ⟨-, ⟨never, -⟩ | ⟨more, attached, tail, -, same, never | found⟩⟩ := readFrom_header header
      · cases never
      · cases never
      · cases found
        subst same
        rw [foldl_trackFD]
        rfl
    refine .inl ⟨kept, ?_⟩
    split at received
    · cases received
      exact tracked
    dsimp only at received
    split at received
    · cases received
    · next payload =>
      cases received
      rw [(readLoop_unarmed payload).1]
      exact tracked
    · next payload =>
      cases received
      rw [(readLoop_unarmed payload).1]
      exact tracked

theorem Communicator.sndRcvMessage_settled {comm : Communicator}
    (sent : comm.sndRcvMessage wantFDs .empty = some reply) : Settled (comm.Loses wantFDs) reply := by
  cases comm with
  | channel flip =>
    cases sent
    refine .inl ⟨id, ?_⟩
    simp only [Flip.sndRcvMessage, Flip.rcvMsg]
    split
    · rfl
    · split
      · rfl
      · exact rcvFDs_balanced flip.numFDs flip.fdChan rfl
  | sockCommunicator stream =>
    simp only [Communicator.sndRcvMessage, Stream.sndRcvMessage] at sent
    split at sent
    · next fails =>
      cases sent
      refine .inl ⟨fun loses => ?_, rfl⟩
      rw [loses.1] at fails
      cases fails
    · next sends => exact stream.rcvMsg_settled (by simpa using sends) sent

theorem handOver_spec (respFDs : List Int) (balanced : ledger.Balanced) :
    ∃ kept, kept = ledger.fds.take respFDs.length ∧
      (handOver respFDs ledger).1 = kept.map Int.ofNat ++ replicate (respFDs.length - kept.length) (-1) ∧
      (handOver respFDs ledger).2.fds = [] ∧
      (handOver respFDs ledger).2.received = ledger.received ∧
      ((handOver respFDs ledger).2.closed ++ kept).Perm ledger.received := by
  let copied := min respFDs.length ledger.fds.length
  have closed : (handOver respFDs ledger).2.closed = ledger.closed ++ ledger.fds.drop copied := by
    have rest := closeFDs_received ledger.releaseFDs.2 (ledger.fds.drop copied) 0
    rw [replicate_zero, append_nil] at rest
    exact rest
  refine ⟨ledger.fds.take copied, take_eq_take_min.symm, ?_, rfl, rfl, ?_⟩
  · rw [length_take, Nat.min_eq_left (Nat.min_le_right _ _)]
    rfl
  · unfold Ledger.Balanced at balanced
    rw [closed, balanced, append_assoc]
    refine Perm.append_left _ (perm_append_comm.trans ?_)
    rw [take_append_drop]

/-- A call that fails has closed every descriptor that it received exactly once, and one that
succeeds has put them in the buffer of the caller, in order, or closed them. -/
def Result.Owned (wantFDs : Nat) (result : Result) : Prop :=
  result.ledger.fds = [] ∧
  (result.err ≠ none → result.ledger.closed.Perm result.ledger.received) ∧
  (result.err = none → ∃ kept : List FD, kept.Sublist result.ledger.received ∧
    result.respFDs = kept.map Int.ofNat ++ List.replicate (wantFDs - kept.length) (-1) ∧
    (result.ledger.closed ++ kept).Perm result.ledger.received)

/-- The request is sent. -/
def Client.Sends (c : Client) (m : MID) (payloadLen wantFDs : Nat) : Prop :=
  c.supported.getD m false = true ∧ payloadLen ≤ c.maxMessageSize ∧ wantFDs ≤ 255

/-- The expected response comes with descriptors for the caller. -/
def Client.Delivers (c : Client) (m : MID) (wantFDs : Nat) (comm : Communicator) : Prop :=
  wantFDs ≠ 0 ∧ m ≠ errorMessage ∧ ∃ respPayloadLen ledger,
    comm.sndRcvMessage wantFDs .empty = some (.ok (m, respPayloadLen), ledger) ∧
    respPayloadLen ≤ c.maxMessageSize ∧ ledger.fds ≠ []

section Delivery

variable {c : Client} {m : MID} {comm : Communicator} {answer : Except Error (MID × Nat)}

/-- A response that is not the expected one delivers nothing. -/
theorem not_delivers (sent : comm.sndRcvMessage wantFDs .empty = some (answer, ledger))
    (other : ∀ length, answer = .ok (m, length) → c.maxMessageSize < length ∨ m = errorMessage) :
    ¬ c.Delivers m wantFDs comm := by
  rintro ⟨-, expected, length, after, delivered, fits, -⟩
  rw [sent] at delivered
  cases delivered
  rcases other length rfl with long | same
  · exact Nat.not_lt.mpr fits long
  · exact expected same

theorem delivers_iff {length : Nat} (sent : comm.sndRcvMessage wantFDs .empty = some (.ok (m, length), ledger))
    (expected : m ≠ errorMessage) (fits : length ≤ c.maxMessageSize) :
    c.Delivers m wantFDs comm ↔ ledger.fds.take wantFDs ≠ [] := by
  rw [ne_eq, take_eq_nil_iff, not_or]
  constructor
  · rintro ⟨wanted, -, _, _, delivered, -, donated⟩
    rw [sent] at delivered
    cases delivered
    exact ⟨wanted, donated⟩
  · rintro ⟨wanted, donated⟩
    exact ⟨wanted, expected, length, ledger, sent, fits, donated⟩

end Delivery

section Exits

variable (respFDs : List Int) (err : Error)

/-- The exits that close the buffer of the caller. -/
theorem closed_owned (balanced : ledger.Balanced) :
    Result.Owned respFDs.length ⟨some err, (handOver respFDs ledger).1,
      (handOver respFDs ledger).2.closeFDs (handOver respFDs ledger).1⟩ := by
  obtain ⟨kept, -, buffer, untracked, received, whole⟩ := handOver_spec respFDs balanced
  refine ⟨untracked, fun _ => ?_, fun impossible => by cases impossible⟩
  have closed := closeFDs_received (handOver respFDs ledger).2 kept (respFDs.length - kept.length)
  rw [← buffer] at closed
  simp only [closed]
  exact received ▸ whole

theorem delivered_owned (balanced : ledger.Balanced) :
    Result.Owned respFDs.length ⟨none, (handOver respFDs ledger).1, (handOver respFDs ledger).2⟩ := by
  obtain ⟨kept, taken, buffer, untracked, received, whole⟩ := handOver_spec respFDs balanced
  refine ⟨untracked, fun impossible => absurd rfl impossible, fun _ => ⟨kept, ?_, buffer, received ▸ whole⟩⟩
  rw [received, balanced, taken]
  exact (take_sublist _ _).trans (sublist_append_right _ _)

/-- The exit that leaves the buffer of the caller as it is. -/
theorem undecoded_owned_iff (balanced : ledger.Balanced) :
    Result.Owned respFDs.length ⟨some err, (handOver respFDs ledger).1, (handOver respFDs ledger).2⟩ ↔
      ledger.fds.take respFDs.length = [] := by
  obtain ⟨kept, taken, buffer, untracked, received, whole⟩ := handOver_spec respFDs balanced
  rw [← taken]
  constructor
  · rintro ⟨-, closed, -⟩
    have all : (handOver respFDs ledger).2.closed.Perm ledger.received := received ▸ closed (by simp)
    have lengths := (whole.trans all.symm).length_eq
    rw [length_append] at lengths
    exact length_eq_zero_iff.mp (by omega)
  · rintro rfl
    rw [append_nil] at whole
    exact ⟨untracked, fun _ => received ▸ whole, fun impossible => by cases impossible⟩

theorem lost_not_owned (brought : fds ≠ []) :
    ¬ Result.Owned respFDs.length ⟨some err, (handOver respFDs ⟨fds, [], []⟩).1,
      (handOver respFDs ⟨fds, [], []⟩).2.closeFDs (handOver respFDs ⟨fds, [], []⟩).1⟩ := by
  rintro ⟨-, closed, -⟩
  have unchanged : (handOver respFDs ⟨fds, [], []⟩).2 = ⟨fds, [], []⟩ := by
    simp [handOver, releaseFDs, closeFDs]
  have buffer : (handOver respFDs ⟨fds, [], []⟩).1 = [].map Int.ofNat ++ replicate respFDs.length (-1) := by
    simp [handOver, releaseFDs]
  have all := closed (by simp)
  rw [unchanged, buffer, closeFDs_received] at all
  exact brought all.symm.eq_nil

end Exits

/-- The descriptors of a call are owned as they should be, exactly unless a header that fails loses
some, or some come with the expected response and its payload is not decoded. -/
theorem donated_fds_owned (c : Client) (m : MID) (payloadLen errno : Nat) (respFDs : List Int)
    (comm : Communicator) (respUnmarshal : Bool) (result : Result)
    (called : c.sndRcvMessage m payloadLen respFDs comm errno respUnmarshal = some result) :
    result.Owned respFDs.length ↔
      ¬ (c.Sends m payloadLen respFDs.length ∧ (comm.Loses respFDs.length ∨
        respUnmarshal = false ∧ c.Delivers m respFDs.length comm)) := by
  have refused (err : Error) : Result.Owned respFDs.length ⟨some err, respFDs, .empty⟩ :=
    ⟨rfl, fun _ => .nil, fun impossible => by cases impossible⟩
  unfold Client.sndRcvMessage at called
  split at called
  · next unsupported =>
    cases called
    refine iff_of_true (refused _) fun ⟨⟨supported, _⟩, _⟩ => ?_
    rw [unsupported] at supported
    cases supported
  split at called
  · next long =>
    cases called
    exact iff_of_true (refused _) fun ⟨⟨_, short, _⟩, _⟩ => Nat.not_lt.mpr short long
  split at called
  · next many =>
    cases called
    exact iff_of_true (refused _) fun ⟨⟨_, _, few⟩, _⟩ => Nat.not_lt.mpr few many
  next supported short few =>
  have sends : c.Sends m payloadLen respFDs.length :=
    ⟨by simpa using supported, Nat.not_lt.mp short, Nat.not_lt.mp few⟩
  split at called
  · cases called
  next reply ledger sent =>
  rw [and_iff_right sends]
  dsimp only at called
  obtain ⟨kept, balanced⟩ | ⟨loses, fds, brought, lost⟩ := comm.sndRcvMessage_settled sent
  · rw [or_iff_right kept]
    have closing (err : Error) := closed_owned respFDs err balanced
    split at called
    · cases called
      exact iff_of_true (closing _) fun both => not_delivers sent (fun _ same => by cases same) both.2
    next respM respPayloadLen =>
    split at called
    · next long =>
      cases called
      refine iff_of_true (closing _) fun both => not_delivers sent (fun _ same => ?_) both.2
      cases same
      exact .inl long
    split at called
    · next isError =>
      cases called
      refine iff_of_true (closing _) fun both => not_delivers sent (fun _ same => ?_) both.2
      cases same
      exact .inr isError
    split at called
    · next other =>
      cases called
      refine iff_of_true (closing _) fun both => not_delivers sent (fun _ same => ?_) both.2
      cases same
      exact absurd rfl other
    next short expected same =>
    cases not_not.mp same
    split at called
    · next undecoded =>
      cases called
      rw [undecoded_owned_iff respFDs .eio balanced, and_iff_right undecoded,
        delivers_iff sent expected (Nat.not_lt.mp short), not_not]
    · next decoded =>
      cases called
      exact iff_of_true (delivered_owned respFDs balanced) fun both => decoded both.1
  · cases lost
    cases called
    exact iff_of_false (lost_not_owned respFDs .eio brought) fun fine => fine (.inl loses)

/-- A channel whose server sends a descriptor too many, and a socket whose server refuses: that
answer is not decoded as a response, but its descriptor is closed. -/
theorem surplus_fds_closed :
    let taken : Result := ⟨none, [7, 8], ⟨[7, 8, 9], [], [9]⟩⟩
    let refused : Result := ⟨some (.errno 13), [7], ⟨[7], [], [7]⟩⟩
    (Client.mk [true, true] 64).sndRcvMessage 1 0 [0, 0]
        (.channel ⟨some 4, 1, 3, [some 7, some 8, some 9]⟩) 0 true = some taken ∧ taken.Owned 2 ∧
    (Client.mk [true, true] 64).sndRcvMessage 1 0 [0]
        (.sockCommunicator ⟨false, [.bytes 2 [7], .bytes 4 [], .bytes 3 []], 4, 0⟩) 13 false =
      some refused ∧ refused.Owned 1 := by
  refine ⟨rfl, (donated_fds_owned ⟨[true, true], 64⟩ 1 0 0 [0, 0]
      (.channel ⟨some 4, 1, 3, [some 7, some 8, some 9]⟩) true _ rfl).mpr ?_,
    rfl, (donated_fds_owned ⟨[true, true], 64⟩ 1 0 13 [0]
      (.sockCommunicator ⟨false, [.bytes 2 [7], .bytes 4 [], .bytes 3 []], 4, 0⟩) false _ rfl).mpr ?_⟩
  · rintro ⟨-, loses | ⟨undecoded, -⟩⟩
    · exact loses
    · cases undecoded
  · rintro ⟨-, ⟨-, _, _, _, _, _, -, -, failed⟩ | ⟨-, -, -, _, _, delivered, -⟩⟩
    · cases failed
    · cases delivered

/-- A response that is not decoded leaves its descriptor in the buffer of a caller that is told of
an error, and a socket that fails inside the header loses the descriptor that came with it. -/
theorem fds_left_open :
    (Client.mk [true, true] 64).sndRcvMessage 1 0 [0] (.channel ⟨some 4, 1, 1, [some 7]⟩) 0 false =
      some ⟨some .eio, [7], ⟨[7], [], []⟩⟩ ∧
    (Client.mk [true, true] 64).sndRcvMessage 1 0 [0]
        (.sockCommunicator ⟨false, [.bytes 2 [7], .failed], 0, 1⟩) 0 true =
      some ⟨some .eio, [-1], ⟨[7], [], []⟩⟩ :=
  ⟨rfl, rfl⟩

end BVisor.Lisafs.Donation
