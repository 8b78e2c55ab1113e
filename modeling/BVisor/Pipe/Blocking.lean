import BVisor.Data.Waiting

/-! Pipes: who sleeps on a pipe and who is notified. Of the buffer only the number of its bytes
matters here. -/

namespace BVisor.Pipes

open Data Waiting

def minimumPipeSize : Nat := 4096
def maximumPipeSize : Nat := 1048576
def atomicIOBytes : Nat := 4096

structure Pipe where
  size : Nat
  max : Nat
  readers : Nat
  writers : Nat
  hadWriter : Bool
  within : size ≤ max

def initPipe (sizeBytes : Nat) : Pipe :=
  ⟨0, min (max sizeBytes minimumPipeSize) maximumPipeSize, 0, 0, false, Nat.zero_le _⟩

inductive Error where
  | eof | epipe | wouldBlock | failed
deriving DecidableEq

/-- What the other end of a transfer does: how many bytes it would copy, and whether it fails. -/
structure Copy where
  done : Nat
  fails : Bool

inductive Side where
  | readers | writers
deriving DecidableEq

/-- `dup` leaves the bytes in the pipe, as `Tee` does. A `splice` into the pipe returns what it has
moved, a write goes on with the rest. -/
inductive Request where
  | read (count : Nat) (dup : Bool)
  | spliceToNonPipe (count : Nat)
  | write (count : Nat) (splice : Bool)

def Request.side : Request → Side
  | .read .. | .spliceToNonPipe _ => .readers
  | .write .. => .writers

inductive Change where
  | rOpen | wOpen
  | release (readable writable : Bool)
  | setFifoSize (size : Int)

namespace Pipe

def peekLocked (p : Pipe) (count : Nat) (copy : Copy) : Nat × Option Error :=
  if count = 0 then (0, none)
  else if p.size = 0 then (0, some (if p.writers = 0 then .eof else .wouldBlock))
  else (min copy.done (min count p.size), if copy.fails then some .failed else none)

def consumeLocked (p : Pipe) (n : Nat) : Pipe :=
  { p with size := p.size - n, within := Nat.le_trans (Nat.sub_le _ _) p.within }

def writeLocked (p : Pipe) (count : Nat) (copy : Copy) : Pipe × Nat × Option Error :=
  if p.readers = 0 then (p, 0, some .epipe)
  else if p.max - p.size = 0 then (p, 0, some .wouldBlock)
  else if count > p.max - p.size ∧ count ≤ atomicIOBytes then (p, 0, some .wouldBlock)
  else
    let room := min count (p.max - p.size)
    let done := min copy.done room
    have within : p.size + done ≤ p.max := by
      have := p.within
      omega
    ({ p with size := p.size + done, within }, done,
      if copy.fails then some .failed
      else if done < room then none
      else if room < count then some .wouldBlock
      else none)

def attempt (p : Pipe) (request : Request) (copy : Copy) : Pipe × List Side × Option Request :=
  match request with
  | .read count dup =>
    let (n, error) := p.peekLocked count copy
    let n := if dup then 0 else n
    (p.consumeLocked n, if n = 0 then [] else [.writers],
      if error = some .wouldBlock then some request else none)
  | .spliceToNonPipe count =>
    let n := min copy.done (min count p.size)
    let after := p.consumeLocked n
    (after, if n = 0 then [] else [.writers],
      if n = 0 ∧ copy.fails = false ∧ after.size = 0 ∧ after.writers ≠ 0 then some request else none)
  | .write count splice =>
    let (after, n, error) := p.writeLocked count copy
    (after, if n = 0 then [] else [.readers],
      if error = some .wouldBlock ∧ (n = 0 ∨ splice = false) then some (.write (count - n) splice)
      else none)

/-- The readiness of the caller's end that is in its mask. -/
def ready (p : Pipe) : Request → Bool
  | .write .. => p.writers ≠ 0 ∧ p.size < p.max ∨ p.readers = 0
  | _ => p.readers ≠ 0 ∧ p.size ≠ 0 ∨ p.writers = 0 ∧ p.hadWriter

/-- The masks of readers and writers both have the hang-up, sent when a writer closes, and the
error, sent when the last reader does. -/
def change (p : Pipe) : Change → Pipe × List Side
  | .rOpen => ({ p with readers := p.readers + 1 }, [])
  | .wOpen => ({ p with writers := p.writers + 1, hadWriter := true }, [])
  | .release readable writable =>
    let readers := p.readers - readable.toNat
    ({ p with readers, writers := p.writers - writable.toNat },
      (if readable then [.writers] else []) ++
        (if readable ∧ readers = 0 ∨ writable then [.readers, .writers] else []))
  | .setFifoSize size =>
    if size < 0 then (p, [])
    else
      let size := Nat.max size.toNat minimumPipeSize
      if size > maximumPipeSize then (p, [])
      else if within : p.size ≤ size then ({ p with max := size, within }, [])
      else (p, [])

def Blocked (p : Pipe) : Request → Prop
  | .read count _ => count ≠ 0 ∧ p.size = 0 ∧ p.writers ≠ 0
  | .spliceToNonPipe _ => p.size = 0 ∧ p.writers ≠ 0
  | .write count _ =>
    p.readers ≠ 0 ∧ (p.max - p.size = 0 ∨ count > p.max - p.size ∧ count ≤ atomicIOBytes)

/-- The operation makes no progress and does not fail. -/
def Stuck (p : Pipe) (request : Request) : Prop :=
  ∀ copy, copy.fails = false → p.attempt request copy = (p, [], some request)

variable {p after : Pipe} {request other : Request} {left : Option Request} {copy : Copy}
  {notified : List Side}

@[simp] theorem consumeLocked_zero : p.consumeLocked 0 = p := rfl

theorem Blocked.stuck (blocked : p.Blocked request) : p.Stuck request := by
  intro copy succeeds
  cases request with
  | read count dup =>
    obtain ⟨asks, empty, hasWriters⟩ := blocked
    simp [attempt, peekLocked, asks, empty, hasWriters]
  | spliceToNonPipe count =>
    obtain ⟨empty, hasWriters⟩ := blocked
    simp [attempt, empty, hasWriters, succeeds]
  | write count splice =>
    obtain ⟨hasReaders, full | atomic⟩ := blocked
    · simp [attempt, writeLocked, hasReaders, full]
    · simp [attempt, writeLocked, hasReaders, atomic]

theorem writeLocked_spec {count n : Nat} {error : Option Error} (splice : Bool)
    (written : p.writeLocked count copy = (after, n, error)) :
    (∃ within, after = { p with size := p.size + n, within }) ∧
      (error = some .wouldBlock → after.Blocked (.write (count - n) splice)) := by
  have := p.within
  unfold writeLocked at written
  split at written
  · cases written
    exact ⟨⟨_, rfl⟩, nofun⟩
  rename_i hasReaders
  split at written
  · rename_i full
    cases written
    exact ⟨⟨_, rfl⟩, fun _ => ⟨hasReaders, .inl full⟩⟩
  split at written
  · rename_i atomic
    cases written
    exact ⟨⟨_, rfl⟩, fun _ => ⟨hasReaders, .inr atomic⟩⟩
  · cases written
    refine ⟨⟨_, rfl⟩, fun blocks => ⟨hasReaders, .inl ?_⟩⟩
    dsimp only
    grind

/-- What an attempt does to the pipe, and who hears of it. -/
structure Moves (p after : Pipe) (notified : List Side) : Prop where
  max : after.max = p.max
  readers : after.readers = p.readers
  writers : after.writers = p.writers
  grows : p.size < after.size → .readers ∈ notified
  shrinks : after.size < p.size → .writers ∈ notified

theorem Moves.consume (n : Nat) : p.Moves (p.consumeLocked n) (if n = 0 then [] else [.writers]) := by
  refine ⟨rfl, rfl, rfl, ?_, ?_⟩ <;> grind [consumeLocked]

theorem Moves.blocked (moves : p.Moves after notified) (blocked : p.Blocked other) :
    other.side ∈ notified ∨ after.Blocked other := by
  obtain ⟨max, readers, writers, grows, shrinks⟩ := moves
  cases other <;> grind [Blocked, Request.side]

theorem attempt_spec (tried : p.attempt request copy = (after, notified, left)) :
    p.Moves after notified ∧ ∀ rest, left = some rest → after.Blocked rest := by
  unfold attempt at tried
  cases request with
  | read count dup =>
    rcases peeked : p.peekLocked count copy with ⟨n, error⟩
    simp only [peeked] at tried
    cases tried
    refine ⟨.consume _, fun rest blocks => ?_⟩
    grind [Blocked, consumeLocked, peekLocked]
  | spliceToNonPipe count =>
    cases tried
    refine ⟨.consume _, fun rest blocks => ?_⟩
    grind [Blocked]
  | write count splice =>
    rcases written : p.writeLocked count copy with ⟨end_, n, error⟩
    simp only [written] at tried
    cases tried
    obtain ⟨⟨_, rfl⟩, blocks⟩ := writeLocked_spec splice written
    refine ⟨⟨rfl, rfl, rfl, ?_, ?_⟩, ?_⟩ <;> grind

theorem change_notifies {change : Change} (lower : (p.change change).1.max ≤ p.max)
    (blocked : p.Blocked other) :
    other.side ∈ (p.change change).2 ∨ (p.change change).1.Blocked other := by
  cases change with
  | rOpen | wOpen => cases other <;> grind [Pipe.change, Blocked, Request.side]
  | release readable writable =>
    cases other <;> cases readable <;> cases writable <;> grind [Pipe.change, Blocked, Request.side]
  | setFifoSize size =>
    refine .inr ?_
    unfold Pipe.change at lower ⊢
    cases other <;> grind [Blocked]

end Pipe

def component : Component Pipe Request Side Copy Change :=
  ⟨Request.side, Pipe.ready, Pipe.attempt, Pipe.change⟩

/-- The change does not raise the size of the pipe. -/
def lowers (p : Pipe) (change : Change) : Bool :=
  (p.change change).1.max ≤ p.max

theorem component_notifies : component.Notifies Pipe.Blocked lowers where
  blocks tried := (Pipe.attempt_spec tried).2 _ rfl
  attempt tried blocked := (Pipe.attempt_spec tried).1.blocked blocked
  change lower changed blocked := by
    have told := Pipe.change_notifies (of_decide_eq_true lower) blocked
    rw [show Pipe.change _ _ = _ from changed] at told
    exact told

/-- As long as nobody raises the size of the pipe, whoever sleeps on it without a notification, in
its channel or about to be sent, could neither make progress nor fail. -/
theorem pipe_users_woken (sizeBytes : Nat) (events : List (Event Request Side Copy Change))
    (state : State Pipe Request Side)
    (ran : run (component.guardedStep lowers) ⟨initPipe sizeBytes, [], []⟩ events = some state) :
    ∀ caller ∈ state.callers, caller.phase = .asleep false →
      caller.request.side ∈ state.owed ∨ state.shared.Stuck caller.request :=
  fun caller member asleep =>
    (component_notifies.covered ran caller member asleep).imp_right Pipe.Blocked.stuck

def fillThenWrite : List (Event Request Side Copy Change) :=
  [.change .rOpen, .change .wOpen, .call (.write 4096 false), .proceed 0 ⟨4096, false⟩,
    .call (.write 1 false), .proceed 1 ⟨0, false⟩, .proceed 1 ⟨0, false⟩, .proceed 1 ⟨0, false⟩]

theorem full_pipe_sleeper :
    ∃ state, run (component.guardedStep lowers) ⟨initPipe 4096, [], []⟩ fillThenWrite = some state ∧
      ∀ caller ∈ state.callers, caller.phase = .asleep false →
        caller.request.side ∈ state.owed ∨ state.shared.Stuck caller.request :=
  ⟨_, rfl, pipe_users_woken 4096 fillThenWrite _ rfl⟩

/-- The second writer sleeps on a full pipe and nobody tells it that there is room now. -/
theorem raised_size_not_told :
    (run component.step ⟨initPipe 4096, [], []⟩ (fillThenWrite ++ [.change (.setFifoSize 8192)])).map
      (fun state => (state.callers.map Caller.phase, state.owed,
        (state.shared.writeLocked 1 ⟨1, false⟩).2)) =
      some ([.returned, .asleep false], [.readers], 1, none) := by
  decide

end BVisor.Pipes
