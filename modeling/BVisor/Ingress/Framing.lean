import BVisor.Ingress.Pumps
import BVisor.Ingress.Wire

/-! What `serve` decodes, however its stream is cut into reads, and the sizes of the frames that
the relay writes. -/

namespace BVisor.Ingress

open Data List

def BadBody (body : List Byte) : Prop :=
  body.getD 0 0 ≠ version ∨
    (body.getD 1 0 ≠ kindOpen ∧ body.getD 1 0 ≠ kindData ∧ body.getD 1 0 ≠ kindCloseWrite ∧
      body.getD 1 0 ≠ kindClose) ∨
    (body.getD 1 0 = kindOpen ∧ body.length ≠ fixedHeaderLen) ∨
    (body.getD 1 0 = kindData ∧ body.length - minFrameBody > maxDataChunk) ∨
    ((body.getD 1 0 = kindCloseWrite ∨ body.getD 1 0 = kindClose) ∧ body.length ≠ minFrameBody)

/-- A stream whose first frame is wrong or incomplete. -/
def Defective (bytes : List Byte) : Prop :=
  (bytes ≠ [] ∧ bytes.length < 4) ∨
    ∃ lenBuf after, bytes = lenBuf ++ after ∧ lenBuf.length = 4 ∧
      (ofBigEndian lenBuf < minFrameBody ∨ ofBigEndian lenBuf > maxFrameBody ∨
        after.length < ofBigEndian lenBuf ∨ BadBody (after.take (ofBigEndian lenBuf)))

def Encoded (frames : List HostFrame) (bytes : List Byte) : Prop :=
  ∃ encoded, frames.mapM HostFrame.marshal = some encoded ∧ encoded.flatten = bytes

@[simp] theorem header_length (kind : Byte) (id : BitVec 32) : (header kind id).length = 6 := by
  simp [header]

variable {body : List Byte}

theorem control_other {kind : Byte} (control : kind = kindCloseWrite ∨ kind = kindClose) :
    kind ≠ kindOpen ∧ kind ≠ kindData := by
  rcases control with rfl | rfl <;> decide

theorem parse_of_bad (bad : BadBody body) : parse body = .malformed := by
  unfold parse
  simp only
  by_cases wrongVersion : body.getD 0 0 ≠ version
  · rw [if_pos wrongVersion]
  rw [if_neg wrongVersion]
  rcases bad with wrong | ⟨notOpen, notData, notCloseWrite, notClose⟩ | ⟨isOpen, size⟩ |
    ⟨isData, size⟩ | ⟨control, size⟩
  · exact absurd wrong wrongVersion
  · rw [if_neg notOpen, if_neg notData, if_neg (not_or.mpr ⟨notCloseWrite, notClose⟩)]
  · rw [if_pos isOpen, if_pos size]
  · rw [if_neg (by rw [isData]; decide), if_pos isData, if_pos size]
  · obtain ⟨notOpen, notData⟩ := control_other control
    rw [if_neg notOpen, if_neg notData, if_pos control, if_pos size]

theorem header_slices (kind : Byte) (id : BitVec 32) (more : List Byte) :
    (header kind id ++ more).getD 0 0 = version ∧ (header kind id ++ more).getD 1 0 = kind ∧
      BitVec.ofNat 32 (ofBigEndian (((header kind id ++ more).drop 2).take 4)) = id ∧
      (header kind id ++ more).drop 6 = more := by
  have number : ((header kind id ++ more).drop 2).take 4 = bigEndian 4 id.toNat := by
    rw [drop_append_of_le_length (by simp)]
    rw [take_append_of_le_length (by simp)]
    exact take_of_length_le (by simp)
  refine ⟨rfl, rfl, ?_, ?_⟩
  · rw [number, ofBigEndian_bigEndian_of_lt id.isLt]
    exact BitVec.ofNat_toNat 32 id ▸ BitVec.setWidth_eq id
  · exact drop_left' (header_length kind id)

theorem parse_open (id : BitVec 32) (target : List Byte) (port : BitVec 16) (size : target.length = 16) :
    parse (header kindOpen id ++ target ++ bigEndian 2 port.toNat) = .openConn id target port := by
  rw [append_assoc]
  obtain ⟨v, kind, number, rest⟩ := header_slices kindOpen id (target ++ bigEndian 2 port.toNat)
  have behind : (header kindOpen id ++ (target ++ bigEndian 2 port.toNat)).drop 22 =
      bigEndian 2 port.toNat := by
    rw [← append_assoc]
    exact drop_left' (by simp [size])
  have portNumber : BitVec.ofNat 16 (ofBigEndian ((bigEndian 2 port.toNat).take 2)) = port := by
    rw [take_of_length_le (by simp), ofBigEndian_bigEndian_of_lt port.isLt]
    exact BitVec.ofNat_toNat 16 port ▸ BitVec.setWidth_eq port
  unfold parse
  simp only
  rw [if_neg (fun wrong => wrong v), if_pos kind, if_neg (by simp [size, fixedHeaderLen]), number,
    rest, behind, portNumber, take_left' size]

theorem parse_data (id : BitVec 32) (payload : List Byte) (size : payload.length ≤ maxDataChunk) :
    parse (header kindData id ++ payload) = .data id payload := by
  obtain ⟨v, kind, number, rest⟩ := header_slices kindData id payload
  have fits : ¬ (header kindData id ++ payload).length - minFrameBody > maxDataChunk := by
    simp only [length_append, header_length, minFrameBody]
    omega
  unfold parse
  simp only
  rw [if_neg (fun wrong => wrong v), if_neg (by rw [kind]; decide), if_pos kind, if_neg fits, number, rest]

theorem parse_control {kind : Byte} (control : kind = kindCloseWrite ∨ kind = kindClose) (id : BitVec 32) :
    parse (header kind id) = if kind = kindClose then .close id else .closeWrite id := by
  obtain ⟨v, same, number, _⟩ := header_slices kind id []
  rw [append_nil] at v same number
  obtain ⟨notOpen, notData⟩ := control_other control
  unfold parse
  simp only
  rw [if_neg (fun wrong => wrong v), same, if_neg notOpen, if_neg notData, if_pos control,
    if_neg (by simp [minFrameBody]), number]

def Framed (bytes : Option (List Byte)) (body : List Byte) : Prop :=
  bytes = some (bigEndian 4 body.length ++ body) ∧ minFrameBody ≤ body.length ∧
    body.length ≤ maxFrameBody

theorem withLen_framed (low : minFrameBody ≤ body.length)
    (high : body.length ≤ maxFrameBody) : Framed (withLen body) body := by
  refine ⟨if_neg ?_, low, high⟩
  simp only [maxFrameBody, fixedHeaderLen, maxDataChunk] at high
  omega

theorem marshalControl_framed (kind : Byte) (id : BitVec 32) : Framed (marshalControl kind id) (header kind id) :=
  withLen_framed (by simp [minFrameBody]) (by simp [maxFrameBody, fixedHeaderLen, maxDataChunk])

theorem marshalDialResult_framed (id : BitVec 32) (status : Byte) :
    Framed (marshalDialResult id status) (header kindDialResult id ++ [status]) :=
  withLen_framed (by simp [minFrameBody]) (by simp [maxFrameBody, fixedHeaderLen, maxDataChunk])

theorem marshalData_framed (id : BitVec 32) {payload : List Byte} (size : payload.length ≤ maxDataChunk) :
    Framed (marshalData id payload) (header kindData id ++ payload) := by
  apply withLen_framed
  · simp [minFrameBody]
  · simp only [length_append, header_length, maxFrameBody, fixedHeaderLen]
    omega

theorem HostFrame.marshal_framed {frame : HostFrame} (sendable : frame.Sendable) :
    ∃ body, Framed frame.marshal body ∧ parse body = frame := by
  cases frame with
  | openConn id target port =>
    refine ⟨_, withLen_framed ?_ ?_, parse_open id target port sendable⟩
    · simp [minFrameBody]
    · simp only [HostFrame.Sendable] at sendable
      simp [sendable, maxFrameBody, fixedHeaderLen, maxDataChunk]
  | data id payload => exact ⟨_, marshalData_framed id sendable, parse_data id payload sendable⟩
  | closeWrite id => exact ⟨_, marshalControl_framed kindCloseWrite id, parse_control (.inl rfl) id⟩
  | close id => exact ⟨_, marshalControl_framed kindClose id, parse_control (.inr rfl) id⟩
  | malformed => exact sendable.elim

theorem bigEndian_slice (number : List Byte) (width : Nat) (size : width = 8 * number.length) :
    bigEndian number.length (BitVec.ofNat width (ofBigEndian number)).toNat = number := by
  have fits : ofBigEndian number < 2 ^ width := by
    have value := ofBigEndian_bigEndian number.length (ofBigEndian number)
    rw [bigEndian_ofBigEndian] at value
    rw [value, size, Nat.pow_mul]
    exact Nat.mod_lt _ (Nat.pow_pos (by decide))
  rw [BitVec.toNat_ofNat, Nat.mod_eq_of_lt fits, bigEndian_ofBigEndian]

theorem header_eq (long : minFrameBody ≤ body.length) (v : body.getD 0 0 = version) :
    header (body.getD 1 0) (BitVec.ofNat 32 (ofBigEndian ((body.drop 2).take 4))) ++ body.drop 6 =
      body := by
  simp only [minFrameBody] at long
  have size : ((body.drop 2).take 4).length = 4 := by
    rw [length_take, length_drop]
    omega
  have number := bigEndian_slice ((body.drop 2).take 4) 32 (by rw [size])
  rw [size] at number
  match body with
  | [] | [_] => simp at long
  | first :: second :: more =>
    have same : first = version := v
    rw [header, number]
    simp [same]

theorem marshal_parse (low : minFrameBody ≤ body.length)
    (high : body.length ≤ maxFrameBody) (good : ¬ BadBody body) :
    (parse body).Sendable ∧ (parse body).marshal = some (bigEndian 4 body.length ++ body) := by
  have framed := (withLen_framed low high).1
  simp only [BadBody, not_or, not_and, ne_eq, Decidable.not_not] at good
  obtain ⟨v, kinds, openSize, dataSize, controlSize⟩ := good
  have split := header_eq low v
  unfold parse
  simp only
  rw [if_neg (fun wrong => wrong v)]
  by_cases isOpen : body.getD 1 0 = kindOpen
  · have size := openSize isOpen
    simp only [fixedHeaderLen] at size
    have portSize : ((body.drop 22).take 2).length = 2 := by
      rw [length_take, length_drop, size]
      rfl
    have port := bigEndian_slice ((body.drop 22).take 2) 16 (by rw [portSize])
    rw [portSize] at port
    rw [if_pos isOpen, if_neg (fun wrong => wrong (openSize isOpen))]
    refine ⟨by simp [HostFrame.Sendable, size], ?_⟩
    rw [HostFrame.marshal, marshalOpen, port, ← isOpen, ← framed]
    congr 1
    have tail : (body.drop 6).take 16 ++ (body.drop 22).take 2 = body.drop 6 := by
      have last : (body.drop 22).take 2 = (body.drop 6).drop 16 := by
        rw [drop_drop, take_of_length_le (Nat.le_of_eq (by rw [length_drop, size]))]
      rw [last, take_append_drop]
    rw [append_assoc, tail, split]
  rw [if_neg isOpen]
  by_cases isData : body.getD 1 0 = kindData
  · have size := dataSize isData
    rw [if_pos isData, if_neg size]
    refine ⟨?_, ?_⟩
    · simp only [HostFrame.Sendable, length_drop]
      simp only [minFrameBody] at size
      omega
    · rw [HostFrame.marshal, marshalData, ← isData, split, framed]
  have control : body.getD 1 0 = kindCloseWrite ∨ body.getD 1 0 = kindClose := by
    by_cases isCloseWrite : body.getD 1 0 = kindCloseWrite
    · exact .inl isCloseWrite
    · exact .inr (kinds isOpen isData isCloseWrite)
  have size := controlSize control
  have empty : body.drop 6 = [] := drop_eq_nil_of_le (by rw [size]; decide)
  rw [empty, append_nil] at split
  rw [if_neg isData, if_pos control, if_neg (fun wrong => wrong size)]
  by_cases isClose : body.getD 1 0 = kindClose
  · rw [if_pos isClose]
    refine ⟨trivial, ?_⟩
    rw [HostFrame.marshal, marshalClose, marshalControl, ← isClose, split, framed]
  · rw [if_neg isClose]
    refine ⟨trivial, ?_⟩
    rw [HostFrame.marshal, marshalCloseWrite, marshalControl, ← control.resolve_right isClose, split, framed]

def Out.Bounded : Out → Prop
  | .data payload => payload.length ≤ maxDataChunk
  | _ => True

variable {frame : Out}

theorem Out.marshal_framed (bounded : frame.Bounded) (id : BitVec 32) :
    ∃ body, Framed (frame.marshal id) body := by
  cases frame with
  | dialResult ok => exact ⟨_, marshalDialResult_framed id _⟩
  | data payload => exact ⟨_, marshalData_framed id bounded⟩
  | closeWrite => exact ⟨_, marshalControl_framed kindCloseWrite id⟩
  | close => exact ⟨_, marshalControl_framed kindClose id⟩

def ReaderPhase.Bounded : ReaderPhase → Prop
  | .sendingData payload _ | .writingData payload _ => payload.length ≤ maxDataChunk
  | _ => True

structure Relay.Bounded (relay : Relay) : Prop where
  log : ∀ (index : Nat) (frame : Out), .emitted index frame ∈ relay.shared.log → frame.Bounded
  readers : ∀ session ∈ relay.sessions, session.reader.Bounded

variable {index : Nat} {session session' : Session} {shared shared' : Shared}
  {relay next : Relay}

def Wrote (shared shared' : Shared) : Prop :=
  shared'.log = shared.log ∨
    ∃ index frame, frame.Bounded ∧ shared'.log = shared.log ++ [.emitted index frame]

open Shared

theorem Shared.write_wrote {succeeds : Bool} (bounded : frame.Bounded)
    (stepped : shared.write index frame succeeds = some shared') : Wrote shared shared' := by
  rcases (write_cases stepped).2 with ⟨_, _, log⟩ | ⟨_, _, log⟩
  · exact .inr ⟨index, frame, bounded, log⟩
  · exact .inl log

namespace Session

theorem workerStep_bounded {step : WorkerStep}
    (stepped : session.workerStep index shared step = some (session', shared')) :
    (session'.reader = session.reader ∨ session'.reader = .reading) ∧ Wrote shared shared' := by
  cases step with
  | write succeeds =>
    cases phase : session.worker with
    | writingResult ok =>
      have bounded : (Out.dialResult ok).Bounded := trivial
      simp only [workerStep, phase, emit_eq] at stepped
      split at stepped
      · cases stepped
      rename_i written
      split at stepped <;> cases stepped
      · exact ⟨.inr rfl, write_wrote bounded written⟩
      · exact ⟨.inl rfl, write_wrote bounded written⟩
    | writingClose =>
      have bounded : Out.close.Bounded := trivial
      simp only [workerStep, phase, emit_eq] at stepped
      split at stepped <;> cases stepped
      rename_i written
      exact ⟨.inl rfl, write_wrote bounded written⟩
    | _ => simp [workerStep, phase] at stepped
  | _ =>
    obtain ⟨reader, _, _, log⟩ := workerStep_silent stepped fun _ same => by cases same
    exact ⟨.inl reader, .inl log⟩

end Session

theorem ReadEnd.next_bounded (ending : ReadEnd) : ending.next.Bounded := by
  cases ending <;> trivial

namespace Session

theorem ReaderMove.bounded (moved : ReaderMove index session shared session' shared')
    (bounded : session.reader.Bounded) : session'.reader.Bounded ∧ Wrote shared shared' := by
  cases moved with
  | @read _ ending _ within =>
    refine ⟨?_, .inl rfl⟩
    dsimp only
    split
    · exact ending.next_bounded
    · exact within
  | lockData phase =>
    rw [phase] at bounded
    exact ⟨bounded, .inl rfl⟩
  | @writeData payload ending succeeds _ phase written =>
    rw [phase] at bounded
    have fits : (Out.data payload).Bounded := bounded
    refine ⟨?_, write_wrote fits written⟩
    cases succeeds
    · trivial
    · exact ending.next_bounded
  | @writeCloseWrite succeeds _ _ written =>
    have fits : Out.closeWrite.Bounded := trivial
    refine ⟨?_, write_wrote fits written⟩
    cases succeeds <;> trivial
  | lockCloseWrite | eof | leave | cancel | closeGuest => exact ⟨trivial, .inl rfl⟩

end Session

theorem Relay.Bounded.wrote (bounded : relay.Bounded) (wrote : Wrote relay.shared shared')
    {index : Nat} (logged : .emitted index frame ∈ shared'.log) :
    frame.Bounded := by
  rcases wrote with same | ⟨_, written, fits, log⟩
  · exact bounded.log index frame (same ▸ logged)
  rw [log] at logged
  rcases mem_append.mp logged with old | new
  · exact bounded.log index frame old
  · cases mem_singleton.mp new
    exact fits

variable {dispatcher : Dispatcher}

namespace Relay

theorem Bounded.modify {change : Session → Session}
    (bounded : relay.Bounded) (reader : ∀ session, (change session).reader = session.reader)
    (wrote : Wrote relay.shared shared') :
    Bounded { relay.modify index change with shared := shared', dispatcher } := by
  refine ⟨fun _ _ logged => bounded.wrote wrote logged, ?_⟩
  intro session member
  obtain ⟨position, found⟩ := List.getElem?_of_mem member
  obtain ⟨old, lookup, ⟨_, rfl⟩ | ⟨_, rfl⟩⟩ := getElem?_modify_cases found
  · rw [reader]
    exact bounded.readers old (mem_of_getElem? lookup)
  · exact bounded.readers session (mem_of_getElem? lookup)

theorem Bounded.openSession (bounded : relay.Bounded) (absent : session.reader = .absent) :
    (relay.openSession session dispatcher).Bounded := by
  constructor
  · intro index frame logged
    rcases mem_append.mp logged with old | new
    · exact bounded.log index frame old
    · cases mem_singleton.mp new
  · intro found member
    rcases mem_append.mp member with old | new
    · exact bounded.readers found old
    · rw [mem_singleton.mp new, absent]
      trivial

theorem HostMove.bounded {frame : HostFrame} (moved : HostMove relay frame next) (bounded : relay.Bounded) :
    next.Bounded := by
  cases moved with
  | ignore | malformed | reopen | tooLong => exact ⟨bounded.log, bounded.readers⟩
  | overLimit | opened => exact bounded.openSession rfl
  | queue | close => exact bounded.modify (fun _ => rfl) (.inl rfl)

theorem OK.refusal_bounded (ok : relay.OK)
    (refusing : relay.dispatcher.refusal = some (index, frame)) : frame.Bounded := by
  obtain ⟨_, _, _, ⟨rfl, _⟩ | ⟨rfl, _⟩⟩ := ok.refusal index frame refusing <;> trivial

theorem DispatcherMove.bounded {step : DispatcherStep} (moved : DispatcherMove relay step next) (ok : relay.OK)
    (bounded : relay.Bounded) : next.Bounded := by
  cases moved with
  | stop | lock => exact ⟨bounded.log, bounded.readers⟩
  | abandon | enqueue | drop | cancel | closeGuest => exact bounded.modify (fun _ => rfl) (.inl rfl)
  | @write index frame _ _ phase written =>
    have fits : frame.Bounded := ok.refusal_bounded (by rw [phase]; rfl)
    have wrote := write_wrote fits written
    simp only [Session.emit_eq]
    repeat' split
    all_goals exact bounded.modify (fun _ => rfl) wrote

theorem Bounded.setSession (bounded : relay.Bounded) {result : Session × Shared}
    (reader : result.1.reader.Bounded) (wrote : Wrote relay.shared result.2) :
    (relay.setSession index result).Bounded := by
  refine ⟨fun _ _ logged => bounded.wrote wrote logged, ?_⟩
  intro session member
  rcases mem_or_eq_of_mem_set member with old | rfl
  · exact bounded.readers session old
  · exact reader

theorem step_bounded {event : Event} (ok : relay.OK) (bounded : relay.Bounded)
    (stepped : relay.step event = some next) : next.Bounded := by
  cases move_of_step stepped with
  | host _ moved => exact moved.bounded bounded
  | dispatcher moved => exact moved.bounded ok bounded
  | worker found acted =>
    obtain ⟨reader, wrote⟩ := Session.workerStep_bounded acted
    refine bounded.setSession ?_ wrote
    rcases reader with same | started
    · exact same ▸ bounded.readers _ (mem_of_getElem? found)
    · rw [started]
      trivial
  | reader found acted =>
    obtain ⟨reader, wrote⟩ := (Session.readerMove_of_step acted).bounded (bounded.readers _ (mem_of_getElem? found))
    exact bounded.setSession reader wrote
  | shutdown | closeConn => exact ⟨bounded.log, bounded.readers⟩
  | propagate | shutdownGuest => exact bounded.modify (fun _ => rfl) (.inl rfl)

end Relay

end BVisor.Ingress
