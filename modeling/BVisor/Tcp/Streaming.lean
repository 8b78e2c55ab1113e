import BVisor.Data.Run
import BVisor.Tcp.Endpoint
import BVisor.Tcp.Timers

/-! Runs of a connection. Whatever reaches the sender, in any order, the packets that it hands to the
network carry the application's stream, an ACK removes what it acknowledges, and nothing is sent of a
stream that has not been allowed. -/

namespace BVisor.Tcp

open Data Seqnum Sender
open List hiding after

variable {tree : OrderedTree SACKBlock} {base : Seqnum} {stream : List (Option Byte)} {mark una : Nat}
  {wire : List Packet} {setup : Setup} {e : Endpoint tree}

/-! What was sent. -/

def Silent (wire : List Packet) : Prop := ∀ packet ∈ wire, packet.zeroWindowProbe = true

theorem Packet.units_pos (packet : Packet) : 0 < packet.units.length := by
  unfold Packet.units
  split
  case isTrue => exact Nat.one_pos
  case isFalse data =>
    rw [length_map]
    exact length_pos_iff.mpr data

theorem Emitted.silent_of_start (emitted : Emitted base stream wire mark) (start : mark = 0) : Silent wire := by
  induction emitted with
  | start => exact fun _ member => (nomatch member)
  | probe _ probes ih =>
    intro packet member
    rcases mem_append.mp member with earlier | last
    · exact ih start packet earlier
    · obtain rfl := mem_singleton.mp last
      exact probes
  | @packet _ _ _ packet _ _ _ _ _ _ =>
    have positive := packet.units_pos
    omega

theorem emitted_of_silent (silent : Silent wire) : Emitted base stream wire 0 := by
  have more : ∀ earlier, Emitted base stream earlier 0 → Emitted base stream (earlier ++ wire) 0 := by
    induction wire with
    | nil =>
      intro earlier emitted
      rw [append_nil]
      exact emitted
    | cons packet rest ih =>
      intro earlier emitted
      have probes := silent packet mem_cons_self
      have later := ih (forall_mem_cons.mp silent).2
        (earlier ++ [packet]) (.probe emitted probes)
      rw [append_assoc] at later
      exact later
  exact more [] .start

theorem Emitted.carries (emitted : Emitted base stream wire mark) {packet : Packet}
    (member : packet ∈ wire) (noProbe : packet.zeroWindowProbe = false) :
    ∃ position, packet.seq = after base position ∧ packet.units <+: stream.drop position := by
  induction emitted with
  | start => cases member
  | probe _ probes ih =>
    rcases mem_append.mp member with earlier | last
    · exact ih earlier
    · obtain rfl := mem_singleton.mp last
      rw [probes] at noProbe
      cases noProbe
  | packet _ _ _ number content ih =>
    rcases mem_append.mp member with earlier | last
    · exact ih earlier
    · obtain rfl := mem_singleton.mp last
      exact ⟨_, number, content⟩

namespace Endpoint

/-- What the application has written, with a mark at the end if it has closed the stream. -/
def input (e : Endpoint tree) : List (Option Byte) :=
  e.written.map some ++ if e.sndClosed then [none] else []

theorem open_input (isOpen : e.sndClosed = false) : e.input = e.written.map some := by
  unfold input
  rw [isOpen]
  exact append_nil _

theorem none_notMem_input (isOpen : e.sndClosed = false) : none ∉ e.input := by
  rw [open_input isOpen]
  simp

structure Streams (base : Seqnum) (e : Endpoint tree) : Prop where
  active : e.terminated = false → ∃ una, e.snd.Sound base e.input una
  purged : e.terminated = true → e.snd.writeList = []
  emitted : ∃ mark, Emitted base e.input e.snd.wire mark

structure Gated (setup : Setup) (e : Endpoint tree) : Prop where
  required : e.snd.egressL7Hold = true → e.egressL7Required = true
  sniffed : e.egressL7Required = true → e.egressL7Prefix = e.written.take egressL7SniffLimit
  whole : e.snd.egressL7Hold = true → e.written.length < egressL7SniffLimit
  unwritten : e.egressL7Required = true → e.snd.egressL7Hold = false → e.written = []
  isOpen : e.egressL7Required = true → e.terminated = false → e.sndClosed = false
  undecided : e.egressL7Required = true → ∀ check ∈ e.checks, check.verdict = .needMore
  holding : e.terminated = false → ∀ check ∈ e.checks.getLast?, check.verdict = .needMore →
    e.snd.egressL7Hold = true
  waiting : setup.requireEgressL7 = true → (∀ check ∈ e.checks, check.verdict ≠ .allowed) →
    e.egressL7Required = true ∨ e.terminated = true
  silent : setup.requireEgressL7 = true → (∀ check ∈ e.checks, check.verdict ≠ .allowed) → Silent e.snd.wire
  denied : (∃ check ∈ e.checks, check.verdict = .denied) → e.terminated = true ∧ Silent e.snd.wire
  checked : ∀ check ∈ e.checks, check.bytes = check.queued.take egressL7SniffLimit ∧ check.queued <+: e.written

structure OK (setup : Setup) (e : Endpoint tree) : Prop where
  streams : e.Streams (setup.iss + 1)
  gated : e.Gated setup

variable {s : Sender tree}

theorem emitted_of_sound (sound : s.Sound base stream una) :
    ∃ mark, Emitted base stream s.wire mark := by
  obtain ⟨nxt, _, _, laid, _, _⟩ := sound
  exact ⟨nxt, laid.emitted⟩

theorem streams_of_sound (sound : e.snd.Sound base e.input una) (active : e.terminated = false) :
    e.Streams base := by
  refine ⟨fun _ => ⟨una, sound⟩, fun ends => ?_, emitted_of_sound sound⟩
  rw [active] at ends
  cases ends

theorem Gated.start (gated : e.Gated setup) {nxt : Nat}
    {sent rest : List OutgoingSegment} (laid : s.Laid base e.input una nxt sent rest)
    (ready : s.ReadyAt base una nxt sent rest) (hold : s.egressL7Hold = e.snd.egressL7Hold)
    (required : e.egressL7Required = true) (active : e.terminated = false) : nxt = 0 := by
  cases held : s.egressL7Hold with
  | true => exact ready.held held
  | false =>
    have written := gated.unwritten required (hold.symm.trans held)
    have empty : e.input = [] := by
      rw [open_input (gated.isOpen required active), written]
      rfl
    have reached := laid.queue.holds.front_le
    rw [← laid.queue.sent.stop_eq, empty] at reached
    exact Nat.le_zero.mp reached

theorem Gated.quiet (gated : e.Gated setup) (sound : s.Sound base e.input una)
    (hold : s.egressL7Hold = e.snd.egressL7Hold) (required : e.egressL7Required = true)
    (active : e.terminated = false) : Silent s.wire := by
  obtain ⟨nxt, sent, rest, laid, ready, _⟩ := sound
  exact laid.emitted.silent_of_start (gated.start laid ready hold required active)

theorem Gated.withSender (gated : e.Gated setup) (hold : s.egressL7Hold = e.snd.egressL7Hold)
    (quiet : e.egressL7Required = true ∨ e.terminated = true → Silent e.snd.wire → Silent s.wire) :
    { e with snd := s }.Gated setup := by
  refine ⟨?_, gated.sniffed, ?_, ?_, gated.isOpen, gated.undecided, ?_, gated.waiting, ?_, ?_, gated.checked⟩
  · exact fun held => gated.required (hold.symm.trans held)
  · exact fun held => gated.whole (hold.symm.trans held)
  · exact fun required held => gated.unwritten required (hold.symm.trans held)
  · exact fun active check last more => hold.trans (gated.holding active check last more)
  · exact fun gate undecided => quiet (gated.waiting gate undecided) (gated.silent gate undecided)
  · intro denied
    obtain ⟨ends, silent⟩ := gated.denied denied
    exact ⟨ends, quiet (.inr ends) silent⟩

theorem OK.withSender (ok : e.OK setup) (active : e.terminated = false)
    (sound : s.Sound (setup.iss + 1) e.input una) (hold : s.egressL7Hold = e.snd.egressL7Hold) :
    { e with snd := s }.OK setup := by
  refine ⟨streams_of_sound sound active, ok.gated.withSender hold ?_⟩
  rintro (required | ends) _
  · exact ok.gated.quiet sound hold required active
  · rw [active] at ends
    cases ends

/-! The connection ends. -/

theorem denyEgressL7_ok (silent : Silent e.snd.wire)
    (checked : ∀ check ∈ e.checks,
      check.bytes = check.queued.take egressL7SniffLimit ∧ check.queued <+: e.written) :
    e.denyEgressL7.OK setup :=
  ⟨⟨fun ends => (nomatch ends), fun _ => rfl, ⟨0, emitted_of_silent silent⟩⟩,
    ⟨fun held => (nomatch held), fun required => (nomatch required), fun held => (nomatch held),
      fun required => (nomatch required), fun required => (nomatch required),
      fun required => (nomatch required), fun ends => (nomatch ends), fun _ _ => .inr rfl,
      fun _ _ => silent, fun _ => ⟨rfl, silent⟩, checked⟩⟩

theorem resetConnection_ok (ok : e.OK setup) : e.resetConnection.OK setup := by
  have gated := ok.gated
  obtain ⟨mark, emitted⟩ := ok.streams.emitted
  refine ⟨⟨fun ends => (nomatch ends), fun _ => rfl, ⟨mark, ?_⟩⟩,
    ⟨gated.required, gated.sniffed, gated.whole, gated.unwritten, fun _ ends => (nomatch ends),
      gated.undecided, fun ends => (nomatch ends), fun _ _ => .inr rfl, gated.silent,
      fun denied => ?_, gated.checked⟩⟩
  · have closed : ∃ more, e.resetConnection.input = e.input ++ more := by
      unfold input
      show ∃ more, e.written.map some ++ [none] = _
      cases e.sndClosed with
      | true => exact ⟨[], by simp⟩
      | false => exact ⟨[none], by simp⟩
    obtain ⟨more, same⟩ := closed
    rw [same]
    exact emitted_append emitted more
  · exact ⟨rfl, (gated.denied denied).2⟩

/-! The classification. -/

def withCheck (e : Endpoint tree) (verdict : L7Verdict) : Endpoint tree :=
  { e with
    egressL7Rounds := e.egressL7Rounds + 1
    checks := e.checks ++ [Check.mk e.egressL7Prefix e.written verdict] }

theorem classifyEgressL7_cases (required : e.egressL7Required = true) (final : Bool) (verdict : L7Verdict) :
    e.classifyEgressL7 final verdict = (e.denyEgressL7, true) ∨
    e.classifyEgressL7 final verdict = ((e.withCheck verdict).denyEgressL7, true) ∨
    (final = false ∧ e.egressL7Prefix.length ≠ egressL7SniffLimit ∧ verdict = .needMore ∧
      e.classifyEgressL7 final verdict =
        ({ e.withCheck verdict with snd := { e.snd with egressL7Hold := true } }, false)) ∨
    (verdict = .allowed ∧ e.classifyEgressL7 final verdict =
      ({ (e.withCheck verdict).clearEgressL7 with
        snd := { e.snd with egressL7Hold := false, writeNext := 0 } }, false)) := by
  unfold classifyEgressL7
  rw [if_neg (by rw [required]; decide)]
  split
  · exact .inl rfl
  cases verdict with
  | noGate => exact .inl rfl
  | denied => exact .inr (.inl rfl)
  | allowed => exact .inr (.inr (.inr ⟨rfl, rfl⟩))
  | needMore =>
    rw [if_neg (by decide)]
    dsimp only
    rw [if_neg (by decide), if_pos rfl]
    split
    · exact .inr (.inl rfl)
    · rename_i more
      simp only [Bool.or_eq_true, decide_eq_true_eq, not_or, Bool.not_eq_true] at more
      exact .inr (.inr (.inl ⟨more.1, more.2, rfl, rfl⟩))

structure Pending (setup : Setup) (e : Endpoint tree) : Prop where
  active : e.terminated = false
  isOpen : e.sndClosed = false
  required : e.egressL7Required = true
  sniffed : e.egressL7Prefix = e.written.take egressL7SniffLimit
  laid : ∃ rest, e.snd.Laid (setup.iss + 1) e.input 0 0 [] rest
  sized : e.snd.Sized
  calm : e.snd.fastRecovery.active = false
  unarmed : e.snd.probeTimer = false
  inside : e.snd.writeNext ≤ e.snd.writeList.length
  undecided : ∀ check ∈ e.checks, check.verdict = .needMore
  checked : ∀ check ∈ e.checks, check.bytes = check.queued.take egressL7SniffLimit ∧ check.queued <+: e.written

theorem OK.pending (ok : e.OK setup) (active : e.terminated = false)
    (required : e.egressL7Required = true) : e.Pending setup := by
  have gated := ok.gated
  obtain ⟨una, nxt, sent, rest, laid, ready, sized⟩ := ok.streams.active active
  obtain rfl := gated.start laid ready rfl required active
  obtain rfl := Nat.le_zero.mp laid.queue.sent.le
  have unsent : sent = [] := by
    have stops := laid.queue.sent.stop_eq
    exact units_eq_nil (length_eq_zero_iff.mp (by omega))
  subst unsent
  have inside := ready.inside
  refine ⟨active, gated.isOpen required active, required, gated.sniffed required, ⟨rest, laid⟩, sized,
    ?_, ?_, ?_, gated.undecided required, gated.checked⟩
  · exact Bool.eq_false_iff.mpr fun active => Nat.lt_irrefl 0 (ready.ahead active)
  · exact Bool.eq_false_iff.mpr fun armed => Nat.lt_irrefl 0 (ready.probing armed)
  · rw [laid.list, length_append]
    exact inside

namespace Pending

section

variable (pending : e.Pending setup)
include pending

theorem silent : Silent e.snd.wire := by
  obtain ⟨rest, laid⟩ := pending.laid
  exact laid.emitted.silent_of_start rfl

theorem checked_withCheck (verdict : L7Verdict) :
    ∀ check ∈ (e.withCheck verdict).checks,
      check.bytes = check.queued.take egressL7SniffLimit ∧ check.queued <+: e.written := by
  intro check member
  rcases mem_append.mp member with earlier | last
  · exact pending.checked check earlier
  · obtain rfl := mem_singleton.mp last
    exact ⟨pending.sniffed, prefix_refl _⟩

theorem sound {hold : Bool} {writeNext : Nat}
    (inside : writeNext ≤ e.snd.writeList.length) (placed : hold = false → writeNext = 0) :
    { e.snd with egressL7Hold := hold, writeNext }.Sound (setup.iss + 1) e.input 0 := by
  obtain ⟨rest, laid⟩ := pending.laid
  refine ⟨0, [], rest, laid, ⟨fun active => ?_, fun armed => ?_, ?_, fun flows => ?_, fun _ => rfl⟩,
    pending.sized⟩
  · rw [pending.calm] at active
    cases active
  · rw [pending.unarmed] at armed
    cases armed
  · rw [laid.list, length_append] at inside
    exact inside
  · exact .inl (Nat.le_of_eq (placed flows))

theorem hold_ok (few : e.egressL7Prefix.length ≠ egressL7SniffLimit) :
    { e.withCheck .needMore with snd := { e.snd with egressL7Hold := true } }.OK setup := by
  have sound : { e.snd with egressL7Hold := true }.Sound (setup.iss + 1) e.input 0 :=
    pending.sound pending.inside fun flows => (nomatch flows)
  have whole : e.written.length < egressL7SniffLimit := by
    rw [pending.sniffed, length_take] at few
    omega
  have undecided : ∀ check ∈ (e.withCheck .needMore).checks, check.verdict = .needMore := by
    intro check member
    rcases mem_append.mp member with earlier | last
    · exact pending.undecided check earlier
    · obtain rfl := mem_singleton.mp last
      rfl
  refine ⟨streams_of_sound sound pending.active,
    ⟨fun _ => pending.required, fun _ => pending.sniffed, fun _ => whole, fun _ held => (nomatch held),
      fun _ _ => pending.isOpen, fun _ => undecided, fun _ _ _ _ => rfl,
      fun _ _ => .inl pending.required, fun _ _ => pending.silent, fun denied => ?_,
      pending.checked_withCheck .needMore⟩⟩
  obtain ⟨check, member, denied⟩ := denied
  rw [undecided check member] at denied
  cases denied

theorem allow_ok :
    { (e.withCheck .allowed).clearEgressL7 with
      snd := { e.snd with egressL7Hold := false, writeNext := 0 } }.OK setup := by
  have sound : { e.snd with egressL7Hold := false, writeNext := 0 }.Sound
      (setup.iss + 1) e.input 0 :=
    pending.sound (Nat.zero_le _) fun _ => rfl
  have last : Check.mk e.egressL7Prefix e.written .allowed ∈ (e.withCheck .allowed).checks :=
    mem_append_right _ (mem_singleton.mpr rfl)
  refine ⟨streams_of_sound sound pending.active,
    ⟨fun held => (nomatch held), fun required => (nomatch required), fun held => (nomatch held),
      fun required => (nomatch required), fun required => (nomatch required),
      fun required => (nomatch required), fun _ check atEnd more => ?_, fun _ undecided => ?_,
      fun _ _ => pending.silent, fun denied => ?_, pending.checked_withCheck .allowed⟩⟩
  · have atEnd' : (e.checks ++ [Check.mk e.egressL7Prefix e.written .allowed]).getLast? = some check := atEnd
    rw [List.getLast?_concat] at atEnd'
    cases atEnd'
    cases more
  · exact absurd rfl (undecided _ last)
  · obtain ⟨check, member, denied⟩ := denied
    rcases mem_append.mp member with earlier | last
    · rw [pending.undecided check earlier] at denied
      cases denied
    · obtain rfl := mem_singleton.mp last
      cases denied

theorem classifyEgressL7_ok (final : Bool) (verdict : L7Verdict) :
    ∃ e' denied, e.classifyEgressL7 final verdict = (e', denied) ∧ e'.OK setup ∧
      (denied = true ∨ final = false ∧ e'.snd.egressL7Hold = true ∨
        e'.terminated = false ∧ e'.sndClosed = false ∧ e'.egressL7Required = false ∧
          e'.snd.egressL7Hold = false ∧ e'.snd.writeNext = 0) := by
  rcases classifyEgressL7_cases pending.required final verdict with
    denies | denies | ⟨more, few, rfl, holds⟩ | ⟨rfl, allows⟩
  · exact ⟨_, true, denies, denyEgressL7_ok pending.silent pending.checked, .inl rfl⟩
  · exact ⟨_, true, denies, denyEgressL7_ok pending.silent (pending.checked_withCheck verdict), .inl rfl⟩
  · exact ⟨_, false, holds, pending.hold_ok few, .inr (.inl ⟨more, rfl⟩)⟩
  · exact ⟨_, false, allows, pending.allow_ok, .inr (.inr ⟨pending.active, pending.isOpen, rfl, rfl, rfl⟩)⟩

end

end Pending

/-! New data. -/

theorem appendEgressL7Prefix_eq {written payload : List Byte}
    (sniffed : e.egressL7Prefix = written.take egressL7SniffLimit) :
    (e.appendEgressL7Prefix payload).egressL7Prefix = (written ++ payload).take egressL7SniffLimit := by
  show e.egressL7Prefix ++ payload.take (egressL7SniffLimit - e.egressL7Prefix.length) = _
  rw [sniffed, take_append, length_take]
  congr 2
  omega

variable {payload : List Byte}

theorem pushed_input (isOpen : e.sndClosed = false) (data : payload ≠ []) :
    (e.pushed payload).input = e.input ++ (newOutgoingSegment payload).units := by
  rw [open_input isOpen, OutgoingSegment.units_data data]
  have closed : (e.pushed payload).sndClosed = false := isOpen
  rw [open_input closed, ← map_append]
  rfl

theorem Pending.pushed (pending : e.Pending setup) (data : payload ≠ []) (short : payload.length < maxQueued) :
    ((e.pushed payload).appendEgressL7Prefix payload).Pending setup := by
  obtain ⟨rest, laid⟩ := pending.laid
  have laid' := laid.push (none_notMem_input pending.isOpen) short
  rw [← pushed_input pending.isOpen data] at laid'
  refine ⟨pending.active, pending.isOpen, pending.required,
    @appendEgressL7Prefix_eq _ (e.pushed payload) e.written payload pending.sniffed, ⟨_, laid'⟩,
    pending.sized, pending.calm, pending.unarmed, ?_, pending.undecided, ?_⟩
  · have inside := pending.inside
    show (if e.snd.writeNext = e.snd.writeList.length then _ else _) ≤ List.length (_ ++ [_])
    rw [length_append, length_singleton]
    split <;> omega
  · intro check member
    obtain ⟨bytes, queued⟩ := pending.checked check member
    exact ⟨bytes, queued.trans (prefix_append _ _)⟩

theorem OK.flows (ok : e.OK setup) (allowed : e.egressL7Required = false) : e.snd.egressL7Hold = false :=
  Bool.eq_false_iff.mpr fun hold => by
    have required := ok.gated.required hold
    rw [allowed] at required
    cases required

theorem OK.flowing (ok : e.OK setup) (active : e.terminated = false)
    (allowed : e.egressL7Required = false) {e' : Endpoint tree}
    (sound : e'.snd.Sound (setup.iss + 1) e'.input una) (active' : e'.terminated = false)
    (allowed' : e'.egressL7Required = false) (flows : e'.snd.egressL7Hold = false)
    (checks : e'.checks = e.checks) (grows : e.written <+: e'.written) : e'.OK setup := by
  have gated := ok.gated
  have decided : ¬(setup.requireEgressL7 = true ∧
      ∀ check ∈ e.checks, check.verdict ≠ .allowed) := by
    rintro ⟨gate, undecided⟩
    have waits := gated.waiting gate undecided
    rw [allowed, active] at waits
    simp at waits
  have undenied : ¬∃ check ∈ e.checks, check.verdict = .denied := by
    intro denied
    have ends := (gated.denied denied).1
    rw [active] at ends
    cases ends
  have required : e'.egressL7Required ≠ true := Bool.eq_false_iff.mp allowed'
  have held : e'.snd.egressL7Hold ≠ true := Bool.eq_false_iff.mp flows
  refine ⟨streams_of_sound sound active',
    ⟨fun hold => absurd hold held, fun req => absurd req required, fun hold => absurd hold held,
      fun req => absurd req required, fun req => absurd req required, fun req => absurd req required,
      ?_, ?_, ?_, ?_, ?_⟩⟩
  · rw [checks]
    intro _ check last more
    have hold := gated.holding active check last more
    rw [ok.flows allowed] at hold
    cases hold
  · intro gate undecided
    exact absurd ⟨gate, by rw [← checks]; exact undecided⟩ decided
  · intro gate undecided
    exact absurd ⟨gate, by rw [← checks]; exact undecided⟩ decided
  · intro denied
    exact absurd (by rw [← checks]; exact denied) undenied
  · rw [checks]
    intro check member
    obtain ⟨bytes, queued⟩ := gated.checked check member
    exact ⟨bytes, queued.trans grows⟩

theorem sendDataFrom_start (first : s.writeNext = 0) (congestion : Congestion)
    (calm : Bool) : s.sendDataFrom congestion calm = s.sendData congestion calm := by
  have stays : (if s.nextSeg?.isNone then s.writeList.length - 1 else s.writeNext) =
      s.writeNext := by
    split
    · rename_i none
      unfold nextSeg? at none
      rw [Option.isNone_iff_eq_none, List.getElem?_eq_none_iff] at none
      omega
    · rfl
  unfold sendDataFrom
  rw [stays]

theorem classifyWrite_required (required : e.egressL7Required = true) (verdict : L7Verdict) :
    (e.pushed payload).classifyWrite payload verdict =
      ((e.pushed payload).appendEgressL7Prefix payload).classifyEgressL7 false verdict := by
  exact if_pos required

theorem classifyWrite_allowed (allowed : e.egressL7Required = false) (verdict : L7Verdict) :
    (e.pushed payload).classifyWrite payload verdict = (e.pushed payload, false) := by
  exact if_neg (Bool.eq_false_iff.mp allowed)

section

variable (lawful : tree.Lawful sackBlockLess)
include lawful

section

variable (ok : e.OK setup) (active : e.terminated = false)
include ok active

theorem write_exists (isOpen : e.sndClosed = false)
    (data : payload ≠ []) (short : payload.length < maxQueued) (verdict : L7Verdict)
    (congestion : Congestion) (calm : Bool) :
    ∃ e', e.write payload verdict congestion calm = .ok e' ∧ e'.OK setup := by
  by_cases required : e.egressL7Required = true
  · have pending := (ok.pending active required).pushed data short
    obtain ⟨e', denied, classifies, ok', outcome⟩ := pending.classifyEgressL7_ok false verdict
    unfold write
    rw [classifyWrite_required required, classifies]
    dsimp only
    rcases outcome with rfl | ⟨_, hold⟩ | ⟨active', _, _, flows, first⟩
    · exact ⟨e', rfl, ok'⟩
    · rw [hold, Bool.or_true, if_pos rfl]
      exact ⟨e', rfl, ok'⟩
    · obtain ⟨una, sound⟩ := ok'.streams.active active'
      obtain ⟨s', sends, sound', hold'⟩ := sendData_exists lawful sound congestion calm
      split
      · exact ⟨e', rfl, ok'⟩
      · rw [sendDataFrom_start first, sends]
        exact ⟨_, rfl, ok'.withSender active' sound' hold'⟩
  have allowed := Bool.eq_false_iff.mpr required
  have flows := ok.flows allowed
  obtain ⟨una, sound⟩ := ok.streams.active active
  obtain ⟨s', sends, sound', flows'⟩ := sendDataFrom_exists lawful sound flows
    (none_notMem_input isOpen) short congestion calm
  rw [← pushed_input isOpen data] at sound'
  have flows₁ : (e.pushed payload).snd.egressL7Hold = false := flows
  unfold write
  rw [classifyWrite_allowed allowed]
  dsimp only
  rw [flows₁, if_neg (by decide)]
  show ∃ e', (e.pushed payload).withSender ((e.snd.pushBack payload).sendDataFrom congestion calm) = .ok e' ∧ _
  rw [sends]
  exact ⟨_, rfl, @OK.flowing _ _ _ _ ok active allowed { e.pushed payload with snd := s' } sound'
    active allowed flows' rfl (prefix_append _ _)⟩

theorem close_exists (isOpen : e.sndClosed = false)
    (allowed : e.egressL7Required = false) (congestion : Congestion) (calm : Bool) :
    ∃ e', { e with snd := e.snd.pushBack [], sndClosed := true }.withSender
        ((e.snd.pushBack []).sendDataFrom congestion calm) = .ok e' ∧ e'.OK setup := by
  obtain ⟨una, sound⟩ := ok.streams.active active
  obtain ⟨s', sends, sound', flows'⟩ := sendDataFrom_exists lawful sound (ok.flows allowed)
    (none_notMem_input isOpen) (show ([] : List Byte).length < maxQueued by decide) congestion calm
  have closed : { e with snd := s', sndClosed := true }.input =
      e.input ++ (newOutgoingSegment []).units := by
    rw [open_input isOpen]
    rfl
  rw [← closed] at sound'
  rw [sends]
  exact ⟨_, rfl, @OK.flowing _ _ _ _ ok active allowed { e with snd := s', sndClosed := true } sound'
    active allowed flows' rfl (prefix_refl _)⟩

theorem shutdown_exists (verdict : L7Verdict) (congestion : Congestion) (calm : Bool) :
    ∃ e', e.shutdown verdict congestion calm = .ok e' ∧ e'.OK setup := by
  unfold shutdown
  by_cases required : e.egressL7Required = true
  · obtain ⟨e', denied, classifies, ok', outcome⟩ := (ok.pending active required).classifyEgressL7_ok true verdict
    rw [classifies]
    rcases outcome with rfl | ⟨never, _⟩ | ⟨active', isOpen', allowed', _, _⟩
    · exact ⟨e', rfl, ok'⟩
    · cases never
    · dsimp only
      split
      · exact ⟨e', rfl, ok'⟩
      · exact close_exists lawful ok' active' isOpen' allowed' congestion calm
  have allowed := Bool.eq_false_iff.mpr required
  have passes : e.classifyEgressL7 true verdict = (e, false) := by
    unfold classifyEgressL7
    rw [if_pos (by rw [allowed]; rfl)]
  rw [passes]
  dsimp only
  split
  · exact ⟨e, rfl, ok⟩
  · rename_i isOpen
    rw [Bool.false_or] at isOpen
    exact close_exists lawful ok active (Bool.eq_false_iff.mpr isOpen) allowed congestion calm

end

/-! The other events. -/

section

variable (ok : e.OK setup) (active : e.terminated = false)
include ok active

omit lawful in
theorem OK.sender_exists {result : Except Panic (Sender tree)}
    (exists_ : ∀ una, e.snd.Sound (setup.iss + 1) e.input una → ∃ s', result = .ok s' ∧
      s'.Sound (setup.iss + 1) e.input una ∧ s'.egressL7Hold = e.snd.egressL7Hold) :
    ∃ e', e.withSender result = .ok e' ∧ e'.OK setup := by
  obtain ⟨una, sound⟩ := ok.streams.active active
  obtain ⟨s', same, sound', hold⟩ := exists_ una sound
  rw [same]
  exact ⟨_, rfl, ok.withSender active sound' hold⟩

theorem flush_exists (congestion : Congestion) (calm : Bool) :
    ∃ e', e.flush congestion calm = .ok e' ∧ e'.OK setup := by
  unfold flush
  split
  · exact ⟨e, rfl, ok⟩
  · exact ok.sender_exists active fun _ sound => sendData_exists lawful sound congestion calm

theorem restore_exists (gsoNone : Bool) {gsoLimit : Nat} (hasGsoLimit : 0 < gsoLimit)
    (smallGsoLimit : gsoLimit < maxGsoLimit) (room : Int) :
    ∃ e', e.restore gsoNone gsoLimit room = .ok e' ∧ e'.OK setup := by
  unfold restore
  split
  · rename_i hold
    have pending := ok.pending active (ok.gated.required hold)
    exact ⟨_, rfl, denyEgressL7_ok pending.silent pending.checked⟩
  apply ok.sender_exists active
  rintro una ⟨nxt, sent, rest, laid, ready, sized⟩
  have reset : { e.snd with
      space := { e.snd.space with scoreboard := e.snd.space.scoreboard.reset }
      gsoNone
      gsoLimit
      probeTimer := false
      corkTimer := e.snd.corkOption }.Sound (setup.iss + 1) e.input una :=
    ⟨nxt, sent, rest, laid.withSpace ⟨rfl, rfl, rfl, rfl⟩
        (SendSpace.expunge_ok lawful laid.spaceOK),
      ⟨ready.recovering, fun armed => (nomatch armed), ready.inside, ready.placed, ready.held⟩,
      ⟨sized.hasPayload, sized.smallPayload, hasGsoLimit, smallGsoLimit, sized.hasSmss⟩⟩
  exact updateMaxPayloadSize_exists lawful reset room 0 ⟨0, 0⟩ false

end

omit lawful in
theorem updateMaxPayloadSize_purged (empty : s.writeList = []) (room : Int)
    (count : Nat) (congestion : Congestion) (calm : Bool) :
    ∃ s', s.updateMaxPayloadSize room count congestion calm = .ok s' ∧ s'.writeList = [] ∧
      s'.wire = s.wire ∧ s'.egressL7Hold = s.egressL7Hold := by
  have sends : ∀ s : Sender tree, s.writeList = [] → ∃ s', s.sendData congestion calm = .ok s' ∧
      s'.writeList = [] ∧ s'.wire = s.wire ∧ s'.egressL7Hold = s.egressL7Hold := by
    intro s empty
    have none : s.nextSeg? = none := by
      unfold nextSeg?
      rw [empty]
      rfl
    unfold sendData
    split
    · exact ⟨s, rfl, empty, rfl, rfl⟩
    · dsimp only
      rw [sendLoop, none]
      exact ⟨_, rfl, empty, rfl, rfl⟩
  unfold updateMaxPayloadSize
  split
  · exact ⟨s, rfl, empty, rfl, rfl⟩
  dsimp only
  split
  · exact ⟨_, rfl, empty, rfl, rfl⟩
  · exact sends _ empty

theorem packetTooBig_exists (ok : e.OK setup) (room : Int) (congestion : Congestion) (calm : Bool) :
    ∃ e', e.withSender (e.snd.updateMaxPayloadSize room 1 congestion calm) = .ok e' ∧
      e'.OK setup := by
  by_cases active : e.terminated = false
  · exact ok.sender_exists active fun _ sound =>
      updateMaxPayloadSize_exists lawful sound room 1 congestion calm
  have ends : e.terminated = true := Bool.not_eq_false _ ▸ active
  obtain ⟨s', updates, empty, wire, hold⟩ :=
    updateMaxPayloadSize_purged (ok.streams.purged ends) room 1 congestion calm
  rw [updates]
  refine ⟨_, rfl, ⟨fun still => absurd still active, fun _ => empty, ?_⟩, ok.gated.withSender hold fun _ silent => ?_⟩
  · show ∃ mark, Emitted _ e.input s'.wire mark
    rw [wire]
    exact ok.streams.emitted
  · rw [wire]
    exact silent

/-! Runs. -/

/-- The conditions under which an event keeps the stream in order: the cork timer expires only where
`writeNext` is the first segment that was not sent, the SACK blocks taken for data in flight are ranges
of it, and what the application writes at once is less than 2 ^ 30 bytes. -/
def Orderly (e : Endpoint tree) : Event → Prop
  | .write payload _ _ _ => payload.length < maxQueued
  | .receive ack _ => e.snd.space.Orderly ack
  | .corkTimer _ _ => e.snd.CorkReady
  | _ => True

instance : (event : Event) → Decidable (e.Orderly event)
  | .write payload .. => inferInstanceAs (Decidable (payload.length < maxQueued))
  | .receive ack _ => inferInstanceAs (Decidable (e.snd.space.Orderly ack))
  | .corkTimer .. => inferInstanceAs (Decidable e.snd.CorkReady)
  | .shutdown .. | .retransmitTimer .. | .reorderTimer .. | .probeTimer _ | .packetTooBig ..
  | .setDelayOption .. | .setCorkOption .. | .reset | .restore .. => inferInstanceAs (Decidable True)

def orderlyStep (e : Endpoint tree) (event : Event) : Option (Endpoint tree) :=
  if e.Orderly event then e.step event else none

theorem handle_exists (ok : e.OK setup) {event : Event} (enabled : e.Enabled event) (orderly : e.Orderly event) :
    ∃ e', e.handle event = .ok e' ∧ e'.OK setup := by
  cases event with
  | write payload verdict congestion calm =>
    exact write_exists lawful ok enabled.1 enabled.2.1 enabled.2.2 orderly verdict congestion calm
  | shutdown verdict congestion calm =>
    exact shutdown_exists lawful ok enabled verdict congestion calm
  | receive ack input =>
    obtain ⟨una, sound⟩ := ok.streams.active enabled
    obtain ⟨s', acked, handles, sound', _, hold⟩ := handleRcvdSegment_exists lawful sound orderly input
    show ∃ e', e.withSender _ = .ok e' ∧ _
    rw [handles]
    exact ⟨_, rfl, ok.withSender enabled sound' hold⟩
  | retransmitTimer timedOut congestion calm =>
    exact ok.sender_exists enabled fun _ sound =>
      retransmitTimerExpired_exists lawful sound timedOut congestion calm
  | reorderTimer elapsed congestion calm =>
    exact ok.sender_exists enabled fun _ sound =>
      reorderTimerExpired_exists sound elapsed congestion calm
  | probeTimer congestion =>
    exact ok.sender_exists enabled.1 fun _ sound =>
      probeTimerExpired_exists sound enabled.2 congestion
  | corkTimer congestion calm =>
    exact ok.sender_exists enabled.1 fun _ sound =>
      corkTimerExpired_exists lawful sound orderly congestion calm
  | packetTooBig room congestion calm => exact packetTooBig_exists lawful ok room congestion calm
  | setDelayOption v congestion calm =>
    obtain ⟨una, sound⟩ := ok.streams.active enabled
    have ok' : { e with snd := { e.snd with delayOption := v } }.OK setup :=
      @OK.withSender _ _ _ _ { e.snd with delayOption := v } ok enabled sound rfl
    unfold handle setDelayOption
    dsimp only
    split
    · exact ⟨_, rfl, ok'⟩
    · exact flush_exists lawful ok' enabled congestion calm
  | setCorkOption v congestion calm =>
    obtain ⟨una, sound⟩ := ok.streams.active enabled
    have ok' : ∀ corkTimer, { e with snd := { e.snd with corkOption := v, corkTimer } }.OK setup :=
      fun corkTimer =>
        @OK.withSender _ _ _ _ { e.snd with corkOption := v, corkTimer } ok enabled sound rfl
    unfold handle setCorkOption
    dsimp only
    split
    · exact ⟨_, rfl, ok' _⟩
    · exact flush_exists lawful (ok' false) enabled congestion calm
  | reset => exact ⟨_, rfl, resetConnection_ok ok⟩
  | restore gsoNone gsoLimit room =>
    exact restore_exists lawful ok enabled.1 gsoNone enabled.2.1 enabled.2.2 room

theorem orderlyStep_ok (event : Event) (next : Endpoint tree)
    (ok : e.OK setup) (stepped : e.orderlyStep event = some next) : next.OK setup := by
  unfold orderlyStep step at stepped
  split at stepped
  · rename_i orderly
    split at stepped
    · rename_i enabled
      obtain ⟨e', handles, ok'⟩ := handle_exists lawful ok enabled orderly
      rw [handles] at stepped
      cases stepped
      exact ok'
    · cases stepped
  · cases stepped

omit lawful in
theorem after_zero : after base 0 = base := by
  unfold after
  exact BitVec.add_zero base

theorem initial_sound (setup : Setup) :
    (initial setup : Endpoint tree).snd.Sound (setup.iss + 1) [] 0 := by
  refine ⟨0, [], [], ⟨rfl, ⟨⟨Nat.le_refl 0, rfl, fun _ member => (nomatch member),
    fun member => (nomatch member)⟩, rfl, trivial⟩, after_zero.symm, after_zero.symm, by decide,
    SendSpace.initial_ok lawful _ _ _ _ _ _, fun finSent => (nomatch finSent), .start⟩,
    ⟨fun active => (nomatch active), fun armed => (nomatch armed), Nat.le_refl 0,
      fun _ => .inl (Nat.le_refl 0), fun _ => rfl⟩,
    ⟨setup.hasPayload, setup.smallPayload, setup.hasGsoLimit, setup.smallGsoLimit, ?_⟩⟩
  show 0 < (BitVec.ofNat 16 setup.maxPayloadSize).toNat
  rw [BitVec.toNat_ofNat, Nat.mod_eq_of_lt setup.smallPayload]
  exact setup.hasPayload

theorem initial_ok (setup : Setup) :
    (initial setup : Endpoint tree).OK setup :=
  ⟨⟨fun _ => ⟨0, initial_sound lawful setup⟩, fun ends => (nomatch ends), ⟨0, .start⟩⟩,
    ⟨fun held => (nomatch held), fun _ => rfl, fun held => (nomatch held), fun _ _ => rfl,
      fun _ _ => rfl, fun _ _ member => (nomatch member), fun _ _ last => (nomatch last),
      fun gate _ => .inl gate, fun _ _ _ member => (nomatch member),
      fun ⟨_, member, _⟩ => (nomatch member), fun _ member => (nomatch member)⟩⟩

theorem reaches_ok (reaches : Reaches orderlyStep (initial setup) e) : e.OK setup :=
  reaches.invariant (OK setup)
    (fun _ event next ok stepped => orderlyStep_ok lawful event next ok stepped)
    (initial_ok lawful setup)

end

end Endpoint

end BVisor.Tcp
