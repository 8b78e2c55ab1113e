import BVisor.Egress.GateClient

/-! Each verdict is read by the call whose request it answers. The turn is held from before the
request is written until its verdict is read, and a call that leaves a request unanswered closes
the client before it gives up the turn. -/

namespace BVisor.Egress

open BVisor.Data Option

variable {client after : Client} {id other : Nat} {call next : Call} {step : CallStep}

/-- No request is unanswered and no verdict unread. -/
def Client.Quiet (client : Client) : Prop :=
  client.requests = [] ∧ client.verdicts = []

/-- Exactly one exchange is under way, and it is the one of call `id`. -/
def Client.Serves (client : Client) (id : Nat) : Prop :=
  (∃ frame, client.requests = [⟨id, frame⟩] ∧ client.verdicts = []) ∨
    ∃ byte, client.requests = [] ∧ client.verdicts = [⟨id, byte⟩]

def Phase.StreamOK (client : Client) (id : Nat) : Phase → Prop
  | .checkingDeadline | .settingDeadline | .writing => client.Quiet
  | .reading => client.Serves id
  | _ => True

/-- What holds of every call, in the words of the call and of what it shares. -/
structure CallOK (client : Client) (id : Nat) (call : Call) : Prop where
  turn : call.phase.holdsTurn = true ↔ client.turn = some id
  stream : call.phase.StreamOK client id
  read : ∀ verdict, call.read = some verdict → verdict.request = id
  outcome : ∀ outcome, call.phase = .releasing outcome ∨ call.phase = .returned outcome →
    outcome = .refused ∨ call.exempt = true ∨
      ∃ verdict, call.read = some verdict ∧ verdictOutcome call.kind verdict.byte = some outcome
  failed : call.failed = true → call.phase = .closing ∨ client.done = true
  closing : call.phase = .closing ∨ call.phase = .closingConn → call.failed = true
  fresh : call.phase.beforeDeadlineCheck = true → call.failed = false
  early : call.expiredEarly = true → call.expired = true ∧ call.phase.exchanging = false ∧ call.failed = false

/-- What a step of another call may do to the shared state. -/
structure Elsewhere (other : Nat) (client after : Client) : Prop where
  done : client.done = true → after.done = true
  turn : after.turn = some other ↔ client.turn = some other
  stream : client.turn = some other → after.requests = client.requests ∧ after.verdicts = client.verdicts

variable {phase : Phase} {verdict : Verdict}

theorem Phase.streamOK_of_released (released : phase.holdsTurn = false) : phase.StreamOK client id := by
  cases phase <;> trivial

theorem Phase.StreamOK.congr (ok : phase.StreamOK client id)
    (requests : after.requests = client.requests) (verdicts : after.verdicts = client.verdicts) :
    phase.StreamOK after id := by
  cases phase <;> simp_all only [Phase.StreamOK, Client.Quiet, Client.Serves, and_self]

theorem CallOK.elsewhere (ok : CallOK client other call) (elsewhere : Elsewhere other client after) :
    CallOK after other call := by
  refine ⟨ok.turn.trans elsewhere.turn.symm, ?_, ok.read, ok.outcome, ?_, ok.closing, ok.fresh, ok.early⟩
  · by_cases holds : client.turn = some other
    · exact ok.stream.congr (elsewhere.stream holds).1 (elsewhere.stream holds).2
    · exact Phase.streamOK_of_released (Bool.eq_false_iff.mpr fun held => holds (ok.turn.mp held))
  · intro failed
    exact (ok.failed failed).imp_right elsewhere.done

/-- The verdict that is taken is the only one. -/
theorem Client.Serves.unread {rest : List Verdict} (serves : client.Serves id)
    (unread : client.verdicts = verdict :: rest) :
    verdict.request = id ∧ Client.Quiet { client with verdicts := rest } := by
  rcases serves with ⟨_, _, none⟩ | ⟨_, answered, one⟩
  · rw [none] at unread
    cases unread
  · rw [one] at unread
    cases unread
    exact ⟨rfl, answered, rfl⟩

theorem Elsewhere.refl : Elsewhere other client client :=
  ⟨fun done => done, .rfl, fun _ => ⟨rfl, rfl⟩⟩

theorem Elsewhere.of_held (held : client.turn = some id) (different : other ≠ id)
    (done : client.done = true → after.done = true) (turn : after.turn = client.turn) :
    Elsewhere other client after := by
  have notOther : client.turn ≠ some other := by
    rw [held]
    exact fun same => different (Option.some.inj same).symm
  exact ⟨done, by rw [turn], fun isOther => absurd isOther notOther⟩

theorem Elsewhere.take (free : client.turn = none) (different : other ≠ id) :
    Elsewhere other client { client with turn := some id } := by
  refine ⟨fun done => done, ?_, fun isOther => ?_⟩
  · simp [free, Ne.symm different]
  · simp [free] at isOther

theorem Elsewhere.release (held : client.turn = some id) (different : other ≠ id) :
    Elsewhere other client { client with turn := none } := by
  refine ⟨fun done => done, ?_, fun isOther => ?_⟩
  · simp [held, Ne.symm different]
  · exact absurd (Option.some.inj (held.symm.trans isOther)).symm different

/-- What a step of a call does to the call and to what it shares. -/
inductive Move (id : Nat) (client : Client) (call : Call) : Call → Client → Prop
  | expire : Move id client call { call with
      expired := true
      expiredEarly := call.expiredEarly || call.phase.beforeDeadlineCheck } client
  | enter (here : call.phase = .entering) : Move id client call { call with phase := call.enter } client
  | take (here : call.phase = .trying ∨ call.phase = .waiting) (free : client.turn = none) :
    Move id client call { call with phase := .checkingDone } { client with turn := some id }
  | wait (here : call.phase = .trying) : Move id client call { call with phase := .waiting } client
  | giveUp (here : call.phase = .waiting) : Move id client call { call with phase := .returned .refused } client
  | refuse (here : call.phase = .checkingDone ∨ call.phase = .checkingDeadline) :
    Move id client call { call with phase := .releasing .refused } client
  | findOpen (here : call.phase = .checkingDone) (isOpen : client.done = false) :
    Move id client call { call with phase := .checkingDeadline } client
  | inTime (here : call.phase = .checkingDeadline) (inTime : ¬ call.expired = true) :
    Move id client call { call with phase := .settingDeadline } client
  | arm (here : call.phase = .settingDeadline) : Move id client call { call with phase := .writing } client
  | fail (here : call.phase = .settingDeadline ∨ call.phase = .writing ∨ call.phase = .reading) :
    Move id client call call.fail client
  | failDelivered (here : call.phase = .writing) : Move id client call call.fail (client.deliver id call)
  | write (here : call.phase = .writing) :
    Move id client call { call with phase := .reading } (client.deliver id call)
  | receive {verdict : Verdict} {rest : List Verdict} (here : call.phase = .reading)
      (unread : client.verdicts = verdict :: rest) :
    Move id client call (call.receive verdict) { client with verdicts := rest }
  | close (here : call.phase = .closing) :
    Move id client call { call with phase := .closingConn }
      { client with done := true, closeOnce := .running (some id) }
  | closed (here : call.phase = .closing) (completed : client.closeOnce = .completed) :
    Move id client call { call with phase := .releasing .refused } client
  | closeConn (here : call.phase = .closingConn) :
    Move id client call { call with phase := .releasing .refused }
      { client with connClosed := true, closeOnce := .completed }
  | release {outcome : Outcome} (here : call.phase = .releasing outcome) :
    Move id client call { call with phase := .returned outcome } { client with turn := none }

theorem Call.move_of_step (stepped : call.step id client step = some (next, after)) :
    Move id client call next after := by
  unfold Call.step at stepped
  split at stepped <;> (try split at stepped) <;> (try split at stepped) <;>
    (try split at stepped) <;> cases stepped
  all_goals grind [Move]

section

variable (ok : CallOK client id call)
include ok

theorem Move.elsewhere (moved : Move id client call next after) (different : other ≠ id) :
    Elsewhere other client after := by
  have held {phase : Phase} (here : call.phase = phase) (holds : phase.holdsTurn = true) :
      client.turn = some id := ok.turn.mp (here ▸ holds)
  cases moved with
  | take _ free => exact .take free different
  | failDelivered here | write here | receive here | closeConn here =>
    exact .of_held (held here rfl) different (fun done => done) rfl
  | close here => exact .of_held (held here rfl) different (fun _ => rfl) rfl
  | release here => exact .release (held here rfl) different
  | _ => exact .refl

theorem CallOK.move (turn : phase.holdsTurn = true ↔ after.turn = some id) (stream : phase.StreamOK after id)
    (outcome : ∀ outcome, phase = .releasing outcome ∨ phase = .returned outcome →
      outcome = .refused ∨ call.exempt = true ∨
        ∃ verdict, call.read = some verdict ∧ verdictOutcome call.kind verdict.byte = some outcome)
    (failed : call.failed = true → after.done = true)
    (closing : phase = .closing ∨ phase = .closingConn → call.failed = true)
    (fresh : phase.beforeDeadlineCheck = true → call.phase.beforeDeadlineCheck = true)
    (early : call.expiredEarly = true → phase.exchanging = false) :
    CallOK after id { call with phase } :=
  ⟨turn, stream, ok.read, outcome, fun isFailed => .inr (failed isFailed),
    closing, fun isFresh => ok.fresh (fresh isFresh),
    fun isEarly => ⟨(ok.early isEarly).1, early isEarly, (ok.early isEarly).2.2⟩⟩

theorem CallOK.done_of_failed (notClosing : call.phase ≠ .closing)
    (failed : call.failed = true) : client.done = true :=
  (ok.failed failed).resolve_left notClosing

theorem CallOK.fail (exchanging : call.phase.exchanging = true)
    (turn : after.turn = client.turn) : CallOK after id call.fail := by
  have holds : call.phase.holdsTurn = true := by
    cases phase : call.phase <;> simp_all [Phase.exchanging, Phase.holdsTurn]
  refine ⟨⟨fun _ => ?_, fun _ => rfl⟩, trivial, ok.read, nofun, fun _ => .inl rfl, fun _ => rfl, nofun, ?_⟩
  · rw [turn]
    exact ok.turn.mp holds
  · intro early
    have outside := (ok.early early).2.1
    rw [exchanging] at outside
    cases outside

theorem Call.enter_ok (here : call.phase = .entering) : CallOK client id { call with phase := call.enter } := by
  have free : client.turn ≠ some id := fun held => by
    have holds := ok.turn.mpr held
    rw [here] at holds
    cases holds
  have failed := ok.done_of_failed (by simp [here])
  have fresh : call.phase.beforeDeadlineCheck = true := by rw [here]; rfl
  unfold Call.enter
  split
  · exact ok.move ⟨nofun, fun held => absurd held free⟩ trivial (by simp) failed (by simp)
      (fun _ => fresh) (fun _ => rfl)
  split
  · exact ok.move ⟨nofun, fun held => absurd held free⟩ trivial (by simp) failed (by simp)
      (fun _ => fresh) (fun _ => rfl)
  split
  · rename_i loopback
    exact ok.move ⟨nofun, fun held => absurd held free⟩ trivial
      (fun _ _ => .inr (.inl loopback)) failed (by simp) (fun _ => fresh)
      (fun _ => rfl)
  · exact ok.move ⟨nofun, fun held => absurd held free⟩ trivial (by simp) failed (by simp)
      (fun _ => fresh) (fun _ => rfl)

theorem Call.receive_ok
    (here : call.phase = .reading) (own : verdict.request = id) (turn : after.turn = client.turn)
    (done : after.done = client.done) : CallOK after id (call.receive verdict) := by
  have held : after.turn = some id := by
    rw [turn]
    exact ok.turn.mp (by rw [here]; rfl)
  have notEarly : call.expiredEarly ≠ true := fun early => by
    have outside := (ok.early early).2.1
    rw [here] at outside
    cases outside
  have reads : ∀ other, some verdict = some other → other.request = id :=
    fun other same => Option.some.inj same ▸ own
  unfold Call.receive
  split
  · rename_i outcome valid
    refine ⟨⟨fun _ => held, fun _ => rfl⟩, trivial, reads, ?_, ?_, by simp, nofun,
      fun early => absurd early notEarly⟩
    · intro other ending
      have same : outcome = other := by simpa using ending
      subst same
      exact .inr (.inr ⟨verdict, rfl, valid⟩)
    · intro failed
      rw [done]
      exact .inr (ok.done_of_failed (by simp [here]) failed)
  · exact ⟨⟨fun _ => held, fun _ => rfl⟩, trivial, reads, nofun, fun _ => .inl rfl, fun _ => rfl,
      nofun, fun early => absurd early notEarly⟩

theorem Call.expire_ok :
    CallOK client id { call with
      expired := true
      expiredEarly := call.expiredEarly || call.phase.beforeDeadlineCheck } := by
  refine ⟨ok.turn, ok.stream, ok.read, ok.outcome, ok.failed, ok.closing, ok.fresh, ?_⟩
  intro early
  rcases Bool.or_eq_true _ _ ▸ early with already | now
  · exact ⟨rfl, (ok.early already).2⟩
  · refine ⟨rfl, ?_, ok.fresh now⟩
    cases here : call.phase <;> simp_all [Phase.beforeDeadlineCheck, Phase.exchanging]

theorem CallOK.carryOn (holdsBefore : call.phase.holdsTurn = true) (notClosing : call.phase ≠ .closing)
    (holds : phase.holdsTurn = true) (stays : phase ≠ .closing ∧ phase ≠ .closingConn)
    (stream : phase.StreamOK client id) (refused : ∀ outcome, phase = .releasing outcome → outcome = .refused)
    (fresh : phase.beforeDeadlineCheck = true → call.phase.beforeDeadlineCheck = true)
    (early : call.expiredEarly = true → phase.exchanging = false) :
    CallOK client id { call with phase } := by
  refine ok.move ⟨fun _ => ok.turn.mp holdsBefore, fun _ => holds⟩ stream ?_
    (ok.done_of_failed notClosing) (fun closing => absurd closing (not_or.mpr stays)) fresh early
  intro outcome ending
  rcases ending with releasing | returned
  · exact .inl (refused outcome releasing)
  · rw [returned] at holds
    cases holds

theorem Move.callOK (moved : Move id client call next after)
    (quiet : call.phase = .checkingDone → client.done = false → client.Quiet)
    (once : client.closeOnce ≠ .idle → client.done = true) : CallOK after id next := by
  have free {phase : Phase} (here : call.phase = phase) (released : phase.holdsTurn = false) :
      client.turn ≠ some id := fun isHeld => by
    have holds := ok.turn.mpr isHeld
    rw [here, released] at holds
    cases holds
  have holds {phase : Phase} (here : call.phase = phase) (holds : phase.holdsTurn = true) :
      call.phase.holdsTurn = true := here ▸ holds
  have notEarly {phase : Phase} (here : call.phase = phase) (exchanging : phase.exchanging = true) :
      call.expiredEarly ≠ true := fun early => by
    have outside := (ok.early early).2.1
    rw [here, exchanging] at outside
    cases outside
  have stream := ok.stream
  cases moved with
  | expire => exact call.expire_ok ok
  | enter here => exact call.enter_ok ok here
  | take here =>
    have fresh : call.phase.beforeDeadlineCheck = true := by rcases here with here | here <;> rw [here] <;> rfl
    have open_ : call.phase ≠ .closing := by rcases here with here | here <;> simp [here]
    exact ok.move ⟨fun _ => rfl, fun _ => rfl⟩ trivial (by simp)
      (ok.done_of_failed open_) (by simp) (fun _ => fresh) (fun _ => rfl)
  | wait here =>
    exact ok.move ⟨nofun, fun isHeld => absurd isHeld (free here rfl)⟩ trivial (by simp)
      (ok.done_of_failed (by simp [here])) (by simp) (fun _ => by rw [here]; rfl) (fun _ => rfl)
  | giveUp here =>
    exact ok.move ⟨nofun, fun isHeld => absurd isHeld (free here rfl)⟩ trivial (by simp)
      (ok.done_of_failed (by simp [here])) (by simp) nofun (fun _ => rfl)
  | refuse here =>
    rcases here with here | here <;>
      exact ok.carryOn (holds here rfl) (by simp [here]) rfl (by simp) trivial (by simp) nofun (fun _ => rfl)
  | findOpen here isOpen =>
    exact ok.carryOn (holds here rfl) (by simp [here]) rfl (by simp)
      (quiet here isOpen) (by simp) (fun _ => by rw [here]; rfl) (fun _ => rfl)
  | inTime here inTime =>
    rw [here] at stream
    exact ok.carryOn (holds here rfl) (by simp [here]) rfl (by simp) stream (by simp) nofun
      (fun early => absurd (ok.early early).1 inTime)
  | arm here =>
    rw [here] at stream
    exact ok.carryOn (holds here rfl) (by simp [here]) rfl (by simp) stream (by simp) nofun
      (fun early => absurd early (notEarly here rfl))
  | fail here => exact ok.fail (by rcases here with here | here | here <;> rw [here] <;> rfl) rfl
  | failDelivered here => exact ok.fail (by rw [here]; rfl) rfl
  | write here =>
    rw [here] at stream
    have served : (client.deliver id call).Serves id :=
      .inl ⟨frame call.kind call.dst call.prefixBytes, by simp [Client.deliver, stream.1],
        stream.2⟩
    exact ok.move ⟨fun _ => ok.turn.mp (holds here rfl), fun _ => rfl⟩ served (by simp)
      (ok.done_of_failed (by simp [here])) (by simp) nofun
      (fun early => absurd early (notEarly here rfl))
  | @receive verdict rest here unread =>
    rw [here] at stream
    exact call.receive_ok ok here (stream.unread unread).1 rfl rfl
  | close here =>
    exact ok.move ⟨fun _ => ok.turn.mp (holds here rfl), fun _ => rfl⟩ trivial (by simp)
      (fun _ => rfl) (fun _ => ok.closing (.inl here)) nofun
      (fun early => absurd early (notEarly here rfl))
  | closed here completed =>
    exact ok.move ⟨fun _ => ok.turn.mp (holds here rfl), fun _ => rfl⟩ trivial (by simp)
      (fun _ => once (by simp [completed])) (by simp) nofun (fun _ => rfl)
  | closeConn here =>
    exact ok.move ⟨fun _ => ok.turn.mp (holds here rfl), fun _ => rfl⟩ trivial (by simp)
      (ok.done_of_failed (by simp [here])) (by simp) nofun (fun _ => rfl)
  | @release outcome here =>
    refine ok.move ⟨nofun, nofun⟩ trivial ?_ (ok.done_of_failed (by simp [here])) (by simp) nofun (fun _ => rfl)
    intro other ending
    have same : outcome = other := by simpa using ending
    exact ok.outcome other (.inl (same ▸ here))

end

theorem Call.receive_failed (failed : call.failed = true) :
    (call.receive verdict).failed = true := by
  unfold Call.receive
  split
  · exact failed
  · rfl

structure Effects (client after : Client) (call next : Call) : Prop where
  done : client.done = true → after.done = true
  outside : after.closedOutside = client.closedOutside
  failed : call.failed = true → next.failed = true
  cause : after.done = true → client.done = true ∨ next.failed = true
  conn : after.connClosed = true → client.connClosed = true ∨ call.phase = .closingConn
  once : after.closeOnce ≠ .idle → client.closeOnce ≠ .idle ∨ after.done = true ∨
    call.phase = .closingConn

theorem Effects.keep (failed : call.failed = true → next.failed = true)
    (done : after.done = client.done) (outside : after.closedOutside = client.closedOutside)
    (conn : after.connClosed = client.connClosed) (once : after.closeOnce = client.closeOnce) :
    Effects client after call next := by
  refine ⟨?_, outside, failed, ?_, ?_, ?_⟩
  · rw [done]
    exact fun isDone => isDone
  · rw [done]
    exact .inl
  · rw [conn]
    exact .inl
  · rw [once]
    exact .inl

theorem Move.effects (moved : Move id client call next after) (ok : CallOK client id call) :
    Effects client after call next := by
  have unchanged : call.failed = true → call.failed = true := fun failed => failed
  cases moved with
  | fail | failDelivered => exact .keep (fun _ => rfl) rfl rfl rfl rfl
  | receive => exact .keep Call.receive_failed rfl rfl rfl rfl
  | close here =>
    exact ⟨fun _ => rfl, rfl, unchanged, fun _ => .inr (ok.closing (.inl here)), .inl, fun _ => .inr (.inl rfl)⟩
  | closeConn here =>
    exact ⟨fun done => done, rfl, unchanged, .inl, fun _ => .inr here, fun _ => .inr (.inr here)⟩
  | _ => exact .keep unchanged rfl rfl rfl rfl

/-- An exchange that is not over is the stepping call's own, or some other call's. -/
theorem Move.quiet (moved : Move id client call next after) (ok : CallOK client id call)
    (once : client.closeOnce ≠ .idle → client.done = true)
    (quiet : client.Quiet ∨ call.phase = .reading ∨ call.phase = .closing) :
    after.done = true ∨ after.Quiet ∨ next.phase = .reading ∨ next.phase = .closing := by
  have stream := ok.stream
  have still (notReading : call.phase ≠ .reading) (notClosing : call.phase ≠ .closing) :
      client.Quiet := quiet.resolve_right (not_or.mpr ⟨notReading, notClosing⟩)
  cases moved with
  | expire => exact .inr quiet
  | take here | refuse here =>
    rcases here with here | here <;> exact .inr (.inl (still (by simp [here]) (by simp [here])))
  | fail | failDelivered => exact .inr (.inr (.inr rfl))
  | write => exact .inr (.inr (.inl rfl))
  | receive here unread =>
    rw [here] at stream
    exact .inr (.inl (stream.unread unread).2)
  | close => exact .inl rfl
  | closed _ completed => exact .inl (once (by simp [completed]))
  | enter here | wait here | giveUp here | findOpen here | inTime here | arm here | closeConn here
  | release here => exact .inr (.inl (still (by simp [here]) (by simp [here])))

structure Inv (state : State) : Prop where
  calls : ∀ (id : Nat) (call : Call), state.calls[id]? = some call → CallOK state.client id call
  holder : ∀ id, state.client.turn = some id → ∃ call, state.calls[id]? = some call
  quiet : state.client.done = true ∨ state.client.Quiet ∨
    ∃ (id : Nat) (call : Call), state.calls[id]? = some call ∧
      (call.phase = .reading ∨ call.phase = .closing)
  cause : state.client.done = true → state.client.closedOutside = true ∨
    ∃ (id : Nat) (call : Call), state.calls[id]? = some call ∧ call.failed = true
  conn : state.client.connClosed = true → state.client.done = true
  once : state.client.closeOnce ≠ .idle → state.client.done = true

open State

theorem inv_initial : Inv initial :=
  { calls := by simp [initial]
    holder := by simp [initial]
    quiet := .inr (.inl ⟨rfl, rfl⟩)
    cause := by simp [initial]
    conn := by simp [initial]
    once := by simp [initial] }

variable {state : State}

theorem Inv.holder_unique {first second : Nat} {a b : Call} (inv : Inv state)
    (foundFirst : state.calls[first]? = some a) (foundSecond : state.calls[second]? = some b)
    (holdsFirst : a.phase.holdsTurn = true) (holdsSecond : b.phase.holdsTurn = true) :
    first = second := by
  have one := (inv.calls first a foundFirst).turn.mp holdsFirst
  have two := (inv.calls second b foundSecond).turn.mp holdsSecond
  exact Option.some.inj (one.symm.trans two)

theorem getElem?_set_same {calls : List Call} (found : calls[id]? = some call) :
    (calls.set id next)[id]? = some next := by
  have bound := (List.getElem?_eq_some_iff.mp found).1
  rw [List.getElem?_set_self bound]

theorem Inv.call_step (inv : Inv state) (found : state.calls[id]? = some call)
    (stepped : call.step id state.client step = some (next, after)) :
    Inv { client := after, calls := state.calls.set id next } := by
  have ok := inv.calls id call found
  have moved := Call.move_of_step stepped
  have effects := moved.effects ok
  have here : (state.calls.set id next)[id]? = some next := getElem?_set_same found
  have elsewhere (other : Nat) (different : other ≠ id) :
      (state.calls.set id next)[other]? = state.calls[other]? :=
    List.getElem?_set_ne (Ne.symm different)
  -- a call about to look at `done` finds the stream quiet unless it finds the client closed
  have checked : call.phase = .checkingDone → state.client.done = false → state.client.Quiet := by
    intro checking open_
    rcases inv.quiet with done | quiet | ⟨other, busy, foundBusy, exchange⟩
    · rw [open_] at done
      cases done
    · exact quiet
    · have holds : busy.phase.holdsTurn = true := by
        rcases exchange with reading | closing
        · rw [reading]; rfl
        · rw [closing]; rfl
      have same := inv.holder_unique foundBusy found holds (by rw [checking]; rfl)
      subst same
      rw [found] at foundBusy
      cases foundBusy
      rcases exchange with reading | closing
      · rw [reading] at checking
        cases checking
      · rw [closing] at checking
        cases checking
  refine ⟨?_, ?_, ?_, ?_, ?_, ?_⟩
  · intro other otherCall foundOther
    by_cases same : other = id
    · subst same
      rw [here] at foundOther
      cases foundOther
      exact moved.callOK ok checked inv.once
    · rw [elsewhere other same] at foundOther
      exact (inv.calls other otherCall foundOther).elsewhere (moved.elsewhere ok same)
  · intro other held
    by_cases same : other = id
    · exact ⟨next, same ▸ here⟩
    · obtain ⟨otherCall, foundOther⟩ := inv.holder other ((moved.elsewhere ok same).turn.mp held)
      exact ⟨otherCall, (elsewhere other same).trans foundOther⟩
  · have own (quiet : state.client.Quiet ∨ call.phase = .reading ∨ call.phase = .closing) :
        after.done = true ∨ after.Quiet ∨ ∃ (place : Nat) (call : Call),
          (state.calls.set id next)[place]? = some call ∧
            (call.phase = .reading ∨ call.phase = .closing) := by
      rcases moved.quiet ok inv.once quiet with done | quiet | exchange
      · exact .inl done
      · exact .inr (.inl quiet)
      · exact .inr (.inr ⟨id, next, here, exchange⟩)
    rcases inv.quiet with done | quiet | ⟨other, busy, foundBusy, exchange⟩
    · exact .inl (effects.done done)
    · exact own (.inl quiet)
    · by_cases same : other = id
      · subst same
        rw [found] at foundBusy
        cases foundBusy
        exact own (.inr exchange)
      · exact .inr (.inr ⟨other, busy, (elsewhere other same).trans foundBusy, exchange⟩)
  · intro done
    rcases effects.cause done with before | failed
    · rcases inv.cause before with outside | ⟨other, failing, foundFailing, failed⟩
      · exact .inl (effects.outside.trans outside)
      by_cases same : other = id
      · subst same
        rw [found] at foundFailing
        cases foundFailing
        exact .inr ⟨other, next, here, effects.failed failed⟩
      · exact .inr ⟨other, failing, (elsewhere other same).trans foundFailing, failed⟩
    · exact .inr ⟨id, next, here, failed⟩
  · intro closed
    rcases effects.conn closed with before | closing
    · exact effects.done (inv.conn before)
    · exact effects.done (ok.done_of_failed (by simp [closing]) (ok.closing (.inr closing)))
  · intro begun
    rcases effects.once begun with before | done | closing
    · exact effects.done (inv.once before)
    · exact done
    · exact effects.done (ok.done_of_failed (by simp [closing]) (ok.closing (.inr closing)))

theorem Inv.start (inv : Inv state) (kind : Kind) (dst : FullAddress) (prefixBytes : List Byte) :
    Inv { state with calls := state.calls ++ [.new kind dst prefixBytes] } := by
  have kept {id : Nat} {call : Call} (found : state.calls[id]? = some call) :
      (state.calls ++ [Call.new kind dst prefixBytes])[id]? = some call := by
    rw [List.getElem?_append_left (List.getElem?_eq_some_iff.mp found).1, found]
  refine ⟨?_, ?_, ?_, ?_, inv.conn, inv.once⟩
  · intro id call found
    by_cases old : id < state.calls.length
    · rw [List.getElem?_append_left old] at found
      exact inv.calls id call found
    have free : state.client.turn ≠ some id := fun held => by
      obtain ⟨holder, foundHolder⟩ := inv.holder id held
      exact old (List.getElem?_eq_some_iff.mp foundHolder).1
    rw [List.getElem?_append_right (Nat.le_of_not_lt old)] at found
    obtain rfl : Call.new kind dst prefixBytes = call := by
      have member := List.mem_of_getElem? found
      exact (List.mem_singleton.mp member).symm
    exact ⟨⟨nofun, fun held => absurd held free⟩, trivial, nofun, nofun, nofun, by simp [Call.new],
      fun _ => rfl, nofun⟩
  · intro id held
    obtain ⟨call, found⟩ := inv.holder id held
    exact ⟨call, kept found⟩
  · rcases inv.quiet with done | quiet | ⟨id, call, found, exchange⟩
    · exact .inl done
    · exact .inr (.inl quiet)
    · exact .inr (.inr ⟨id, call, kept found, exchange⟩)
  · intro done
    rcases inv.cause done with outside | ⟨id, call, found, failed⟩
    · exact .inl outside
    · exact .inr ⟨id, call, kept found, failed⟩

theorem Inv.answer {request : Request} {rest : List Request} (inv : Inv state)
    (pending : state.client.requests = request :: rest) (verdict : Byte) :
    Inv { state with client := { state.client with
      requests := rest
      verdicts := state.client.verdicts ++ [⟨request.call, verdict⟩] } } := by
  have notQuiet : ¬ state.client.Quiet := fun quiet => by
    rw [quiet.1] at pending
    cases pending
  refine ⟨?_, inv.holder, ?_, inv.cause, inv.conn, inv.once⟩
  · intro id call found
    have ok := inv.calls id call found
    refine ⟨ok.turn, ?_, ok.read, ok.outcome, ok.failed, ok.closing, ok.fresh, ok.early⟩
    have stream := ok.stream
    cases phase : call.phase with
    | checkingDeadline | settingDeadline | writing =>
      rw [phase] at stream
      exact absurd stream notQuiet
    | reading =>
      rw [phase] at stream
      rcases stream with ⟨frame, one, none⟩ | ⟨byte, none, _⟩
      · rw [one] at pending
        cases pending
        exact .inr ⟨verdict, rfl, by simp [none]⟩
      · rw [none] at pending
        cases pending
    | entering | trying | waiting | checkingDone | closing | closingConn | releasing outcome
    | returned outcome => trivial
  · rcases inv.quiet with done | quiet | exchange
    · exact .inl done
    · exact absurd quiet notQuiet
    · exact .inr (.inr exchange)

theorem inv_step {following : State} {event : Event} (inv : Inv state)
    (stepped : state.step event = some following) : Inv following := by
  cases event with
  | start kind dst prefixBytes =>
    cases stepped
    exact inv.start kind dst prefixBytes
  | call id step =>
    simp only [State.step] at stepped
    cases found : state.calls[id]? with
    | none => simp [found] at stepped
    | some call =>
      cases moved : call.step id state.client step with
      | none => simp [found, moved] at stepped
      | some result =>
        simp only [found, moved, some.injEq] at stepped
        subst stepped
        exact inv.call_step found moved
  | answer verdict =>
    simp only [step] at stepped
    cases pending : state.client.requests with
    | nil => simp [pending] at stepped
    | cons request rest =>
      simp only [pending, some.injEq] at stepped
      subst stepped
      exact inv.answer pending verdict
  | outsideClose =>
    simp only [step] at stepped
    cases begun : state.client.closeOnce with
    | running closer => simp [begun] at stepped
    | completed =>
      simp only [begun, some.injEq] at stepped
      exact stepped ▸ inv
    | idle =>
      simp only [begun, some.injEq] at stepped
      subst stepped
      refine ⟨fun id call found => (inv.calls id call found).elsewhere ?_, inv.holder, .inl rfl,
        fun _ => .inl rfl, fun _ => rfl, fun _ => rfl⟩
      exact ⟨fun _ => rfl, .rfl, fun _ => ⟨rfl, rfl⟩⟩
  | outsideCloseConn =>
    simp only [step] at stepped
    split at stepped
    · rename_i running
      have done := inv.once (by simp [running])
      cases stepped
      refine ⟨fun id call found => (inv.calls id call found).elsewhere ?_, inv.holder, inv.quiet,
        inv.cause, fun _ => done, fun _ => done⟩
      exact ⟨fun done => done, .rfl, fun _ => ⟨rfl, rfl⟩⟩
    · cases stepped

def Reachable (state : State) : Prop :=
  Reaches State.step State.initial state

theorem Reachable.inv (reachable : Reachable state) : Inv state :=
  Reaches.invariant reachable Inv (fun _ _ _ inv stepped => inv_step inv stepped) inv_initial

end BVisor.Egress
