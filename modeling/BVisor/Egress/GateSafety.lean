import BVisor.Egress.GatePairing

/-! What the pairing means for callers: who is allowed, who is refused after a failure, and which
calls leave the client as usable as it was. -/

namespace BVisor.Egress

open BVisor.Data Call

variable {client after : Client} {id : Nat} {call next : Call} {step : CallStep} {state : State}

def Phase.queued : Phase → Bool
  | .entering | .trying | .waiting => true
  | _ => false

/-- The phases of a call that does no I/O and is refused in the end. -/
def Phase.turnedAway : Phase → Bool
  | .entering | .trying | .waiting | .checkingDone => true
  | .releasing outcome | .returned outcome => decide (outcome = .refused)
  | _ => false

theorem Move.exempt (moved : Move id client call next after) : next.exempt = call.exempt := by
  cases moved with
  | receive =>
    unfold Call.receive
    split <;> rfl
  | _ => rfl

theorem Move.turnedAway (moved : Move id client call next after) (away : call.phase.turnedAway = true)
    (notExempt : call.exempt = false) (shut : call.phase = .checkingDone → client.done = true) :
    next.phase.turnedAway = true := by
  have excluded {phase : Phase} (here : call.phase = phase) (not : phase.turnedAway = false) :
      False := by
    rw [here, not] at away
    cases away
  cases moved with
  | expire => exact away
  | enter =>
    simp only [Call.enter]
    split
    · rfl
    split
    · rfl
    · rw [if_neg (by simpa [Call.exempt] using notExempt)]
      rfl
  | take | wait | giveUp | refuse | closed | closeConn => rfl
  | findOpen here isOpen =>
    rw [shut here] at isOpen
    cases isOpen
  | fail here => rcases here with here | here | here <;> exact (excluded here rfl).elim
  | release here =>
    rw [here] at away
    exact away
  | inTime here | arm here | failDelivered here | write here | receive here | close here =>
    exact (excluded here rfl).elim

/-- Some call has failed, and the calls of `later` are on their way to being refused. -/
structure Shut (later : Nat → Prop) (state : State) : Prop where
  inv : Inv state
  failure : ∃ (id : Nat) (call : Call), state.calls[id]? = some call ∧ call.failed = true
  away : ∀ (id : Nat) (call : Call), later id → state.calls[id]? = some call →
    call.exempt = false → call.phase.turnedAway = true

variable {later : Nat → Prop} {following : State}

theorem Shut.done (shut : Shut later state)
    (found : state.calls[id]? = some call) (checking : call.phase = .checkingDone) :
    state.client.done = true := by
  obtain ⟨failing, failed, foundFailed, isFailed⟩ := shut.failure
  rcases (shut.inv.calls failing failed foundFailed).failed isFailed with closing | done
  · have same := shut.inv.holder_unique foundFailed found (by rw [closing]; rfl) (by rw [checking]; rfl)
    subst same
    rw [found] at foundFailed
    cases foundFailed
    rw [closing] at checking
    cases checking
  · exact done

theorem Shut.stays {event : Event}
    (shut : Shut later state) (stepped : state.step event = some following) :
    Shut later following := by
  have inv := inv_step shut.inv stepped
  obtain ⟨failing, failed, foundFailed, isFailed⟩ := shut.failure
  cases event with
  | start kind dst prefixBytes =>
    cases stepped
    refine ⟨inv, ⟨failing, failed, ?_, isFailed⟩, ?_⟩
    · rw [List.getElem?_append_left (List.getElem?_eq_some_iff.mp foundFailed).1, foundFailed]
    · intro id call isLater found notExempt
      by_cases old : id < state.calls.length
      · rw [List.getElem?_append_left old] at found
        exact shut.away id call isLater found notExempt
      · rw [List.getElem?_append_right (Nat.le_of_not_lt old)] at found
        rw [List.mem_singleton.mp (List.mem_of_getElem? found)]
        rfl
  | call id step =>
    simp only [State.step] at stepped
    cases found : state.calls[id]? with
    | none => simp [found] at stepped
    | some call =>
      cases moved : call.step id state.client step with
      | none => simp [found, moved] at stepped
      | some result =>
        obtain ⟨next, after⟩ := result
        simp only [found, moved, Option.some.injEq] at stepped
        subst stepped
        have here : (state.calls.set id next)[id]? = some next := getElem?_set_same found
        have elsewhere (other : Nat) (different : other ≠ id) :
            (state.calls.set id next)[other]? = state.calls[other]? :=
          List.getElem?_set_ne (Ne.symm different)
        refine ⟨inv, ?_, ?_⟩
        · by_cases same : failing = id
          · subst same
            rw [found] at foundFailed
            cases foundFailed
            have effects := (move_of_step moved).effects (shut.inv.calls _ _ found)
            exact ⟨failing, next, here, effects.failed isFailed⟩
          · exact ⟨failing, failed, (elsewhere failing same).trans foundFailed, isFailed⟩
        · intro other otherCall isLater foundOther notExempt
          by_cases same : other = id
          · subst same
            rw [here] at foundOther
            cases foundOther
            have moved := move_of_step moved
            have notExempt' := moved.exempt.symm.trans notExempt
            exact moved.turnedAway (shut.away _ call isLater found notExempt') notExempt' (shut.done found)
          · rw [elsewhere other same] at foundOther
            exact shut.away other otherCall isLater foundOther notExempt
  | outsideClose =>
    simp only [State.step] at stepped
    split at stepped <;> cases stepped
    · exact ⟨inv, shut.failure, shut.away⟩
    · exact shut
  | answer verdict | outsideCloseConn =>
    simp only [State.step] at stepped
    split at stepped <;> cases stepped
    exact ⟨inv, shut.failure, shut.away⟩

theorem Shut.reaches (shut : Shut later state)
    (reaches : Reaches State.step state following) : Shut later following :=
  reaches.invariant (Shut later) (fun _ _ _ shut stepped => shut.stays stepped) shut

theorem step_last {calls : List Call} (moved : call.step calls.length client step = some (next, after)) :
    State.step { client, calls := calls ++ [call] } (.call calls.length step) =
      some { client := after, calls := calls ++ [next] } := by
  have found : (calls ++ [call])[calls.length]? = some call := by simp
  have set : (calls ++ [call]).set calls.length next = calls ++ [next] := by simp
  simp only [State.step, found, moved, set]

structure Client.Ready (client : Client) : Prop where
  turn : client.turn = none
  done : client.done = false
  conn : client.connClosed = false
  quiet : client.Quiet

/-- A new call can be served: it can return what the host answers to it. -/
def State.Usable (state : State) : Prop :=
  ∀ (kind : Kind) (dst : FullAddress) (prefixBytes : List Byte) (verdict : Byte)
    (outcome : Outcome), prefixBytes.length ≤ l7SniffLimit →
    dst.addr.length = 4 ∨ dst.addr.length = 16 → isLoopbackOrUnspecified dst.addr = false →
    verdictOutcome kind verdict = some outcome →
    ∃ following call, Reaches State.step state following ∧
      following.calls[state.calls.length]? = some call ∧
      call.phase = .returned outcome ∧ call.read = some ⟨state.calls.length, verdict⟩

theorem new_enters {kind : Kind} {dst : FullAddress} {prefixBytes : List Byte}
    (short : prefixBytes.length ≤ l7SniffLimit) (length : dst.addr.length = 4 ∨ dst.addr.length = 16)
    (notExempt : isLoopbackOrUnspecified dst.addr = false) :
    (new kind dst prefixBytes).enter = .trying := by
  have inside : ¬ (dst.addr.length ≠ 4 ∧ dst.addr.length ≠ 16) := by
    rintro ⟨not4, not16⟩
    exact length.elim not4 not16
  have bounded : ¬ (kind = .l7 ∧ prefixBytes.length > l7SniffLimit) :=
    fun long => Nat.not_lt.mpr short long.2
  simp only [new, enter, if_neg bounded, if_neg inside, notExempt, Bool.false_eq_true, ↓reduceIte]

theorem Client.Ready.usable (ready : state.client.Ready) : state.Usable := by
  intro kind dst prefixBytes verdict outcome short length notExempt valid
  obtain ⟨client, calls⟩ := state
  obtain ⟨turn, done, conn, requests, verdicts⟩ := ready
  simp only at turn done conn requests verdicts
  let id := calls.length
  let fresh := new kind dst prefixBytes
  let held : Client := { client with turn := some id }
  let asked : Client := held.deliver id { fresh with phase := .writing }
  let answered : Client := { asked with requests := [], verdicts := [⟨id, verdict⟩] }
  let received : Call := { fresh with phase := .releasing outcome, read := some ⟨id, verdict⟩ }
  let served : Call := { received with phase := .returned outcome }
  have entered : fresh.step id client .enter = some ({ fresh with phase := .trying }, client) := by
    rw [← @new_enters kind dst prefixBytes short length notExempt]
    rfl
  have taken : step { fresh with phase := .trying } id client .tryTurn =
      some ({ fresh with phase := .checkingDone }, held) := by
    simp only [step, turn, ↓reduceIte, held]
  have isOpen : step { fresh with phase := .checkingDone } id held .checkDone =
      some ({ fresh with phase := .checkingDeadline }, held) := by
    simp only [step, held, done, Bool.false_eq_true, ↓reduceIte]
  have inTime : step { fresh with phase := .checkingDeadline } id held .checkDeadline =
      some ({ fresh with phase := .settingDeadline }, held) := rfl
  have armed : step { fresh with phase := .settingDeadline } id held (.setDeadline true) =
      some ({ fresh with phase := .writing }, held) := by
    simp only [step, held, conn, Bool.not_true, Bool.false_eq_true, ↓reduceIte]
  have written : step { fresh with phase := .writing } id held (.write true true) =
      some ({ fresh with phase := .reading }, asked) := by
    simp only [step, held, conn, Bool.not_true, Bool.false_eq_true, ↓reduceIte, asked]
  have replied : State.step { client := asked, calls := calls ++ [{ fresh with phase := .reading }] }
      (.answer verdict) = some { client := answered, calls := calls ++ [{ fresh with phase := .reading }] } := by
    simp [State.step, asked, answered, held, Client.deliver, requests, verdicts]
  have judged : step { fresh with phase := .reading } id answered (.read true) =
      some (received, { answered with verdicts := [] }) := by
    simp [step, answered, asked, held, Client.deliver, conn, receive, received, fresh, new, valid]
  have released : received.step id { answered with verdicts := [] } .release =
      some (served, { answered with verdicts := [], turn := none }) := rfl
  refine ⟨{ client := { answered with verdicts := [], turn := none }, calls := calls ++ [served] },
    served, ⟨[.start kind dst prefixBytes, .call id .enter, .call id .tryTurn, .call id .checkDone,
      .call id .checkDeadline, .call id (.setDeadline true), .call id (.write true true),
      .answer verdict, .call id (.read true), .call id .release], ?_⟩, ?_, rfl, rfl⟩
  · rw [run_cons rfl, run_cons (step_last entered), run_cons (step_last taken),
      run_cons (step_last isOpen), run_cons (step_last inTime), run_cons (step_last armed),
      run_cons (step_last written), run_cons replied, run_cons (step_last judged),
      run_cons (step_last released)]
    rfl
  · simp

/-- No call has failed and nobody else has closed the client. -/
structure Unharmed (state : State) : Prop where
  inv : Inv state
  noFailure : ∀ (id : Nat) (call : Call), state.calls[id]? = some call → call.failed = false
  notClosed : state.client.closedOutside = false

theorem Unharmed.isOpen (unharmed : Unharmed state) : state.client.done = false := by
  refine Bool.eq_false_iff.mpr fun done => ?_
  rcases unharmed.inv.cause done with outside | ⟨id, call, found, failed⟩
  · rw [unharmed.notClosed] at outside
    cases outside
  · rw [unharmed.noFailure id call found] at failed
    cases failed

theorem Unharmed.ready (unharmed : Unharmed state) (free : state.client.turn = none) :
    state.client.Ready := by
  have isOpen := unharmed.isOpen
  have inv := unharmed.inv
  have conn : state.client.connClosed = false := by
    refine Bool.eq_false_iff.mpr fun closed => ?_
    rw [inv.conn closed] at isOpen
    cases isOpen
  refine ⟨free, isOpen, conn, ?_⟩
  rcases inv.quiet with done | quiet | ⟨id, call, found, exchange⟩
  · rw [isOpen] at done
    cases done
  · exact quiet
  · have holds : call.phase.holdsTurn = true := by
      rcases exchange with reading | closing
      · rw [reading]; rfl
      · rw [closing]; rfl
    have held := (inv.calls id call found).turn.mp holds
    rw [free] at held
    cases held

/-- The client is usable before a step of a call if it is after it. -/
theorem Unharmed.usable_of_step (unharmed : Unharmed state) (found : state.calls[id]? = some call)
    (moved : call.step id state.client step = some (next, after))
    (notFailed : next.failed = false) (outside : after.closedOutside = state.client.closedOutside)
    (usable : Unharmed { client := after, calls := state.calls.set id next } →
      State.Usable { client := after, calls := state.calls.set id next }) : state.Usable := by
  have stepped : state.step (.call id step) = some { client := after, calls := state.calls.set id next } := by
    simp only [State.step, found, moved]
  have kept : Unharmed { client := after, calls := state.calls.set id next } := by
    refine ⟨inv_step unharmed.inv stepped, fun other otherCall foundOther => ?_, outside.trans unharmed.notClosed⟩
    by_cases same : other = id
    · subst same
      rw [getElem?_set_same found] at foundOther
      cases foundOther
      exact notFailed
    · rw [List.getElem?_set_ne (Ne.symm same)] at foundOther
      exact unharmed.noFailure other otherCall foundOther
  intro kind dst prefixBytes verdict outcome short length notExempt valid
  obtain ⟨following, served, ⟨events, ran⟩, there, rest⟩ :=
    usable kept kind dst prefixBytes verdict outcome short length notExempt valid
  rw [List.length_set] at there rest
  exact ⟨following, served, ⟨.call id step :: events, by rw [run_cons stepped, ran]⟩, there, rest⟩

theorem Unharmed.usable_of_releasing {outcome : Outcome} (unharmed : Unharmed state)
    (found : state.calls[id]? = some call) (here : call.phase = .releasing outcome) : state.Usable := by
  have released : call.step id state.client .release =
      some ({ call with phase := .returned outcome }, { state.client with turn := none }) := by
    simp only [Call.step, here]
  refine unharmed.usable_of_step found released (unharmed.noFailure id call found) rfl fun kept => ?_
  exact (kept.ready rfl).usable

theorem Unharmed.usable_of_expired (unharmed : Unharmed state) (found : state.calls[id]? = some call)
    (here : call.phase = .checkingDeadline) (expired : call.expired = true) : state.Usable := by
  have refused : call.step id state.client .checkDeadline =
      some ({ call with phase := .releasing .refused }, state.client) := by
    simp only [Call.step, here, expired, ↓reduceIte]
  refine unharmed.usable_of_step found refused (unharmed.noFailure id call found) rfl fun kept => ?_
  exact kept.usable_of_releasing (getElem?_set_same found) rfl

/-- A call whose deadline passed early is on its way to giving the turn back. -/
theorem Unharmed.usable_of_early (unharmed : Unharmed state) (found : state.calls[id]? = some call)
    (early : call.expiredEarly = true) (held : state.client.turn = some id) : state.Usable := by
  have ok := unharmed.inv.calls id call found
  have holds := ok.turn.mpr held
  obtain ⟨expired, outside, -⟩ := ok.early early
  cases here : call.phase with
  | checkingDone =>
    have isOpen : call.step id state.client .checkDone =
        some ({ call with phase := .checkingDeadline }, state.client) := by
      simp only [Call.step, here, unharmed.isOpen, Bool.false_eq_true, ↓reduceIte]
    refine unharmed.usable_of_step found isOpen (unharmed.noFailure id call found) rfl fun kept => ?_
    exact kept.usable_of_expired (getElem?_set_same found) rfl expired
  | checkingDeadline => exact unharmed.usable_of_expired found here expired
  | releasing outcome => exact unharmed.usable_of_releasing found here
  | entering | trying | waiting | returned =>
    rw [here] at holds
    cases holds
  | settingDeadline | writing | reading | closing | closingConn =>
    rw [here] at outside
    cases outside

theorem verdictOutcome_allow {kind : Kind} {verdict : Byte}
    (allowed : verdictOutcome kind verdict = some .allow) : verdict = verdictAllow := by
  unfold verdictOutcome at allowed
  split at allowed
  · cases allowed
  split at allowed
  · rename_i allow
    exact allow
  · split at allowed <;> cases allowed

/-- In every reachable state: a call that is not exempt is allowed only by the verdict on its own
request; once a call has failed in its I/O, or has read an invalid verdict, no call still waiting
for the turn and no later call gets anything but a refusal; a call that has returned does not hold
the turn, and one whose deadline passes before its check does no I/O and does not fail; and as long
as no call fails and nobody else closes the client, it is usable unless a call holds the turn whose
deadline has not passed so early. -/
theorem gateClient_pairing (reachable : Reachable state) :
    (∀ (id : Nat) (call : Call), state.calls[id]? = some call → call.phase = .returned .allow →
      call.exempt = false → call.read = some ⟨id, verdictAllow⟩) ∧
    (∀ following, Reaches State.step state following →
      (∃ (id : Nat) (call : Call), state.calls[id]? = some call ∧ call.failed = true) →
      ∀ (later : Nat) (call : Call), (∀ queued, state.calls[later]? = some queued → queued.phase.queued = true) →
        following.calls[later]? = some call → call.exempt = false →
        ∀ outcome, call.phase = .returned outcome → outcome = .refused) ∧
    (∀ (id : Nat) (call : Call), state.calls[id]? = some call →
      (∀ outcome, call.phase = .returned outcome → state.client.turn ≠ some id) ∧
      (call.expiredEarly = true → call.failed = false ∧ call.phase.exchanging = false)) ∧
    ((∀ (id : Nat) (call : Call), state.calls[id]? = some call → call.failed = false) →
      state.client.closedOutside = false →
      (∀ (id : Nat) (call : Call), state.client.turn = some id → state.calls[id]? = some call →
        call.expiredEarly = true) → state.Usable) := by
  have inv := reachable.inv
  refine ⟨?_, ?_, ?_, ?_⟩
  · intro id call found returned notExempt
    rcases (inv.calls id call found).outcome .allow (.inr returned) with
      refused | exempt | ⟨verdict, read, valid⟩
    · cases refused
    · rw [notExempt] at exempt
      cases exempt
    · obtain ⟨request, byte⟩ := verdict
      have own : request = id := (inv.calls id call found).read _ read
      have allow : byte = verdictAllow := verdictOutcome_allow valid
      rw [read, own, allow]
  · intro following reaches failure later call queued found notExempt outcome returned
    have shut : Shut (· = later) state := by
      refine ⟨inv, failure, ?_⟩
      rintro _ waiting rfl foundWaiting _
      have isQueued := queued waiting foundWaiting
      cases phase : waiting.phase <;> simp_all [Phase.queued, Phase.turnedAway]
    have away := (shut.reaches reaches).away later call rfl found notExempt
    rw [returned] at away
    simpa [Phase.turnedAway] using away
  · intro id call found
    constructor
    · intro outcome returned held
      have holds := (inv.calls id call found).turn.mpr held
      rw [returned] at holds
      cases holds
    · intro early
      obtain ⟨_, outside, notFailed⟩ := (inv.calls id call found).early early
      exact ⟨notFailed, outside⟩
  · intro noFailure notClosed expired
    have unharmed : Unharmed state := ⟨inv, noFailure, notClosed⟩
    cases turn : state.client.turn with
    | none => exact (unharmed.ready turn).usable
    | some id =>
      obtain ⟨call, found⟩ := inv.holder id turn
      exact unharmed.usable_of_early found (expired id call turn found) turn

/-- One call is allowed; the deadline of the next passes when it has just got the turn. -/
def allowedConnect : List Event :=
  [.start .tcp ⟨[10, 0, 0, 1], 80⟩ [], .call 0 .enter, .call 0 .tryTurn, .call 0 .checkDone,
    .call 0 .checkDeadline, .call 0 (.setDeadline true), .call 0 (.write true true),
    .answer verdictAllow, .call 0 (.read true), .call 0 .release,
    .start .udp ⟨[10, 0, 0, 1], 53⟩ [], .call 1 .enter, .call 1 .tryTurn, .call 1 .expire]

theorem gateClient_pairing_allowedConnect :
    ∃ state call, run State.step .initial allowedConnect = some state ∧
      state.calls[0]? = some call ∧ call.phase = .returned .allow ∧ call.exempt = false ∧
      call.read = some ⟨0, verdictAllow⟩ ∧ state.client.turn = some 1 ∧ state.Usable := by
  obtain ⟨pairs, -, -, usable⟩ := gateClient_pairing ⟨allowedConnect, rfl⟩
  refine ⟨_, _, rfl, rfl, rfl, rfl, pairs 0 _ rfl rfl rfl, rfl, usable ?_ rfl ?_⟩
  · rintro (_ | _ | id) call ⟨⟩ <;> rfl
  · rintro id call ⟨⟩ ⟨⟩
    rfl

/-- The deadline passes after the check and before the write: the write fails, and although nothing
has been sent, the client is closed and the next call refused. -/
theorem expired_before_write_closes :
    (run State.step .initial
      [.start .tcp ⟨[10, 0, 0, 1], 80⟩ [], .call 0 .enter, .call 0 .tryTurn, .call 0 .checkDone,
        .call 0 .checkDeadline, .call 0 (.setDeadline true), .call 0 .expire,
        .call 0 (.write false false), .call 0 .close, .call 0 .closeConn, .call 0 .release,
        .start .tcp ⟨[10, 0, 0, 1], 80⟩ [], .call 1 .enter, .call 1 .tryTurn, .call 1 .checkDone,
        .call 1 .release]).map
      (fun state => (state.client.done, state.client.closedOutside, state.client.requests,
        state.calls.map Call.phase)) =
      some (true, false, [], [.returned .refused, .returned .refused]) := by
  decide

end BVisor.Egress
