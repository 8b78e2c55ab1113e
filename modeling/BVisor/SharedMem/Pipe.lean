import Mathlib

/-! One end of the shared-memory packet pipe, against a peer that may put any value into any slot
header at any time. Indices and sizes are 64-bit words, kept as numbers; the high half of an index
counts revolutions, the low half is an offset. What an end does with the buffer is recorded,
whether or not it lies inside. -/

namespace BVisor.SharedMem

@[irreducible] def plus (x y : Nat) : Nat := (x + y) % 2 ^ 64

@[irreducible] def minus (x y : Nat) : Nat := (x + 2 ^ 64 - y) % 2 ^ 64

/-- `int64(x)`. -/
def signed (x : Nat) : Int := if x < 2 ^ 63 then x else x - 2 ^ 64

def jump : Nat := 2 ^ 32

def slotFree : Nat := 2 ^ 63

/-- `idx & offsetMask`. -/
def offset (idx : Nat) : Nat := idx % 2 ^ 32

/-- `idx & revolutionMask`. -/
def revolution (idx : Nat) : Nat := 2 ^ 32 * (idx / 2 ^ 32)

def payloadToSlotSize (payloadSize : Nat) : Nat := plus (plus 8 payloadSize) 7 / 8 * 8

def slotEnd (idx payloadSize : Nat) : Nat := plus idx (payloadToSlotSize payloadSize)

def slotToPayloadSize (offset : Nat) : Nat := minus offset 8

inductive Access
  | read (offset header : Nat)
  | write (offset header : Nat)
  | slice (offset size : Nat)
deriving DecidableEq

def Access.Inside (length : Nat) : Access → Prop
  | .read offset _ | .write offset _ => offset % 8 = 0 ∧ offset + 8 ≤ length
  | .slice offset size => offset + size ≤ length

structure Pipe where
  length : Nat
  accesses : List Access

/-- How a call ended; `running` if it still waits for a header. -/
inductive Result
  | running | nil
  | slice (offset size : Nat)

namespace Pipe

def init (buffer : Nat) : Pipe := { length := buffer / 8 * 8, accesses := [] }

def readAtomic (p : Pipe) (idx header : Nat) : Pipe :=
  { p with accesses := p.accesses ++ [.read (offset idx) header] }

/-- `write` and `writeAtomic`. -/
def write (p : Pipe) (idx header : Nat) : Pipe :=
  { p with accesses := p.accesses ++ [.write (offset idx) header] }

def data (idx size : Nat) : Result := .slice (offset idx + 8) size

def handOut (p : Pipe) (result : Result) : Pipe :=
  { p with
    accesses := match result with
      | .slice offset size => p.accesses ++ [.slice offset size]
      | _ => p.accesses }

end Pipe

structure Tx where
  p : Pipe
  maxPayloadSize : Nat
  head : Nat
  tail : Nat
  next : Nat
  tailHeader : Nat

namespace Tx

def init (buffer : Nat) : Tx :=
  let p := Pipe.init buffer
  let tail := 0xfffffffe * jump
  { p := p.write tail slotFree
    maxPayloadSize := minus p.length 16
    head := plus tail jump
    tail := tail
    next := tail
    tailHeader := 0 }

/-- The headers are the values the peer lets the reads return, in order. -/
def reclaim (t : Tx) (newNext : Nat) (headers : List Nat) : Tx × List Nat × Option Bool :=
  if 0 < signed (minus newNext t.head) then
    match headers with
    | [] => (t, [], none)
    | header :: rest =>
      let t := { t with p := t.p.readAtomic t.head header }
      if header.testBit 63 then
        let newHead := slotEnd t.head (header % 2 ^ 32)
        if jump < signed (minus newHead t.tail) ∨ t.p.length ≤ offset newHead then
          (t, rest, some false)
        else reclaim { t with head := newHead } newNext rest
      else (t, rest, some false)
  else (t, headers, some true)

def flush (t : Tx) : Tx :=
  if t.next = t.tail then t
  else
    let p := if t.next = t.head then t.p else t.p.write t.next slotFree
    { t with p := p.write t.tail t.tailHeader, tail := t.next }

def abort (t : Tx) : Tx := { t with next := t.tail }

/-- What `push` does once there is room for a wrapping slot up to `newNext`. -/
def wrap (t : Tx) (messageAhead : Bool) (newNext : Nat) : Tx :=
  let wrappingPayloadSize := slotToPayloadSize (minus newNext t.next)
  if messageAhead then { t with p := t.p.write t.next wrappingPayloadSize, next := newNext }
  else flush { t with next := newNext, tailHeader := wrappingPayloadSize }

def reserve (t : Tx) (messageAhead : Bool) (payloadSize newNext : Nat) : Tx × Result :=
  let result := Pipe.data t.next payloadSize
  if messageAhead then ({ t with p := t.p.write t.next payloadSize, next := newNext }, result)
  else ({ t with tailHeader := payloadSize, next := newNext }, result)

/-- `calls` says how often the function has called itself so far. -/
def push (t : Tx) (payloadSize : Nat) : Nat → List Nat → Tx × Result
  | 0, _ => (t, .running)
  | calls + 1, headers =>
    if t.maxPayloadSize < payloadSize then (t, .nil)
    else
      let messageAhead := t.next != t.tail
      let newNext := slotEnd t.next payloadSize
      let nextWrap := revolution t.next ||| t.p.length
      if 0 ≤ signed (minus newNext nextWrap) then
        let newNext := plus (revolution newNext) jump
        match t.reclaim newNext headers with
        | (t, rest, some true) => push (t.wrap messageAhead newNext) payloadSize calls rest
        | (t, _, some false) => (t, .nil)
        | (t, _, none) => (t, .running)
      else
        match t.reclaim newNext headers with
        | (t, _, some true) => t.reserve messageAhead payloadSize newNext
        | (t, _, some false) => (t, .nil)
        | (t, _, none) => (t, .running)

inductive Op
  | push (payloadSize calls : Nat) (headers : List Nat)
  | flush | abort

def step (t : Tx) : Op → Tx
  | .push payloadSize calls headers =>
    let pushed := t.push payloadSize calls headers
    { pushed.1 with p := pushed.1.p.handOut pushed.2 }
  | .flush => t.flush
  | .abort => t.abort

end Tx

structure Rx where
  p : Pipe
  tail : Nat
  head : Nat

namespace Rx

def init (buffer : Nat) : Rx :=
  { p := Pipe.init buffer, tail := 0xfffffffe * jump, head := 0xfffffffe * jump }

def pull (r : Rx) (headers : List Nat) : Rx × Result :=
  if r.head = plus r.tail jump then (r, .nil)
  else
    match headers with
    | [] => (r, .running)
    | header :: rest =>
      let r := { r with p := r.p.readAtomic r.head header }
      if header.testBit 63 then (r, .nil)
      else
        let payloadSize := header % 2 ^ 32
        let newHead := slotEnd r.head payloadSize
        let headWrap := revolution r.head ||| r.p.length
        if 0 ≤ signed (minus newHead headWrap) then
          if 0 < signed (minus newHead (plus r.tail jump)) then (r, .nil)
          else if offset newHead ≠ 0 then (r, .nil)
          else if r.tail = r.head then
            let header := slotFree ||| slotToPayloadSize (minus newHead r.head)
            pull { r with p := r.p.write r.head header, tail := newHead, head := newHead } rest
          else pull { r with head := newHead } rest
        else ({ r with head := newHead }, Pipe.data r.head payloadSize)

def flush (r : Rx) : Rx :=
  if r.head = r.tail then r
  else
    let header := slotFree ||| slotToPayloadSize (minus r.head r.tail)
    { r with p := r.p.write r.tail header, tail := r.head }

def abort (r : Rx) : Rx := { r with head := r.tail }

inductive Op
  | pull (headers : List Nat)
  | flush | abort

def step (r : Rx) : Op → Rx
  | .pull headers =>
    let pulled := r.pull headers
    { pulled.1 with p := pulled.1.p.handOut pulled.2 }
  | .flush => r.flush
  | .abort => r.abort

end Rx

/-! Words and slots. -/

variable {length idx tail head header size newNext newHead payloadSize x y z : Nat}

/-- Lengths that leave room for a slot and for the header of a wrapping slot behind it. -/
structure Fits (length : Nat) : Prop where
  room : 16 ≤ length
  bound : length ≤ 2 ^ 31
  aligned : length % 8 = 0

/-- A word that is the index of a slot header. -/
structure Placed (length idx : Nat) : Prop where
  word : idx < 2 ^ 64
  inside : offset idx < length
  aligned : idx % 8 = 0

theorem Placed.slot_header (placed : Placed length idx) (fits : Fits length) :
    offset idx % 8 = 0 ∧ offset idx + 8 ≤ length := by
  have inside := placed.inside
  have aligned := placed.aligned
  have whole := fits.aligned
  unfold offset at *
  omega

theorem slotEnd_eq (small : size < 2 ^ 33) : slotEnd idx size = plus idx ((size + 15) / 8 * 8) := by
  unfold slotEnd payloadToSlotSize
  congr 1
  unfold plus
  omega

theorem plus_lt (x y : Nat) : plus x y < 2 ^ 64 := by
  unfold plus
  exact Nat.mod_lt _ (by decide)

theorem minus_plus (base : y < 2 ^ 64) (near : minus x y + z < 2 ^ 64) : minus (plus x z) y = minus x y + z := by
  unfold minus plus at *
  omega

theorem minus_self_le (x y : Nat) : minus x x ≤ y := by
  unfold minus
  omega

theorem Placed.after_slot (placed : Placed length idx) (inside : offset (slotEnd idx size) < length) :
    Placed length (slotEnd idx size) := by
  have aligned := placed.aligned
  refine ⟨plus_lt _ _, inside, ?_⟩
  unfold slotEnd payloadToSlotSize plus
  omega

theorem Placed.fitting (placed : Placed length idx) (bound : length ≤ 2 ^ 31)
    (inside : offset idx + (size + 15) / 8 * 8 < length) :
    Placed length (slotEnd idx size) := by
  apply placed.after_slot
  rw [slotEnd_eq (by omega)]
  simp only [offset, plus] at *
  omega

theorem Placed.signed_minus_wrap (placed : Placed length idx) (bound : length ≤ 2 ^ 31) (small : size < 2 ^ 33) :
    signed (minus (slotEnd idx size) (revolution idx ||| length)) =
      (offset idx + (size + 15) / 8 * 8 : Int) - length := by
  have low : length < 2 ^ 32 := by omega
  have word := placed.word
  have inside := placed.inside
  unfold revolution offset at *
  rw [← Nat.two_pow_add_eq_or_of_lt low, slotEnd_eq small]
  unfold signed minus plus
  split <;> omega

/-- The sign of the difference orders indices that are close to a common base. -/
theorem le_of_signed_minus (other : y < 2 ^ 64) (base : z < 2 ^ 64) (near : minus x z < 2 ^ 62)
    (close : minus y z < 2 ^ 62) (settled : ¬ 0 < signed (minus x y)) :
    minus x z ≤ minus y z := by
  unfold signed minus at *
  split at settled <;> omega

/-! What both ends keep. -/

def Result.Inside (length : Nat) : Result → Prop
  | .slice offset size => offset + size ≤ length
  | _ => True

namespace Pipe

variable {p : Pipe}

def Inside (length : Nat) (p : Pipe) : Prop := ∀ access ∈ p.accesses, access.Inside length

structure Sound (length : Nat) (p : Pipe) (tail head : Nat) : Prop where
  fits : Fits length
  length_eq : p.length = length
  tail : Placed length tail
  head : Placed length head
  inside : p.Inside length

theorem Inside.append {access : Access} (inside : p.Inside length) (last : access.Inside length) :
    Inside length { p with accesses := p.accesses ++ [access] } := by
  intro some member
  rcases List.mem_append.mp member with earlier | new
  · exact inside some earlier
  · rw [List.mem_singleton.mp new]
    exact last

section

variable (sound : p.Sound length tail head)
include sound

theorem Sound.handOut {result : Result}
    (last : result.Inside length) : (p.handOut result).Sound length tail head := by
  cases result with
  | slice offset size =>
    have slice : (Access.slice offset size).Inside length := last
    exact { sound with inside := sound.inside.append slice }
  | running => exact { sound with }
  | nil => exact { sound with }

theorem Sound.write (placed : Placed length idx) (header : Nat) :
    (p.write idx header).Sound length tail head :=
  { sound with inside := sound.inside.append (placed.slot_header sound.fits) }

theorem Sound.read (header : Nat) :
    (p.readAtomic head header).Sound length tail head :=
  { sound with inside := sound.inside.append (sound.head.slot_header sound.fits) }

end

theorem first_placed (fits : Fits length) : Placed length (0xfffffffe * jump) := by
  have room := fits.room
  constructor <;> simp only [jump, offset] <;> omega

theorem init_inside (buffer : Nat) : (init buffer).Inside length :=
  fun _ member => absurd member List.not_mem_nil

end Pipe

/-! The transmitter. -/

namespace Tx

variable {t after : Tx} {messageAhead : Bool} {headers rest : List Nat} {done : Option Bool}

structure Sound (length : Nat) (t : Tx) : Prop extends t.p.Sound length t.tail t.head where
  limit : t.maxPayloadSize = length - 16
  next : Placed length t.next
  behind : minus t.next t.tail ≤ minus t.head t.tail
  near : minus t.head t.tail ≤ jump

theorem init_sound (fits : Fits (length / 8 * 8)) : (init length).Sound (length / 8 * 8) := by
  have room := fits.room
  have bound := fits.bound
  have start := Pipe.first_placed fits
  exact
    { fits, length_eq := rfl, tail := start, next := start
      limit := by
        simp only [init, Pipe.init, minus]
        omega
      head := by constructor <;> simp only [init, plus, jump, offset] <;> omega
      behind := minus_self_le _ _
      near := by simp [init, minus, plus, jump]
      inside := (Pipe.init_inside length).append (start.slot_header fits) }

section

variable (sound : t.Sound length)
include sound

theorem Sound.mark (header : Nat) : Sound length { t with tailHeader := header } :=
  { sound with }

/-- A head that passed the checks of `reclaim` is at most one revolution beyond the tail. -/
theorem Sound.advance
    (checked : ¬ (jump < signed (minus (slotEnd t.head (header % 2 ^ 32)) t.tail) ∨
      length ≤ offset (slotEnd t.head (header % 2 ^ 32)))) :
    Sound length { t with head := slotEnd t.head (header % 2 ^ 32) } := by
  obtain ⟨close, within⟩ := not_or.mp checked
  have small : header % 2 ^ 32 < 2 ^ 32 := Nat.mod_lt _ (by decide)
  have behind := sound.behind
  have near := sound.near
  simp only [jump] at near
  have moved : minus (slotEnd t.head (header % 2 ^ 32)) t.tail =
      minus t.head t.tail + (header % 2 ^ 32 + 15) / 8 * 8 := by
    rw [slotEnd_eq (by omega), minus_plus sound.tail.word (by omega)]
  have near : minus (slotEnd t.head (header % 2 ^ 32)) t.tail ≤ jump := by
    unfold signed at close
    simp only [jump] at close ⊢
    split at close <;> omega
  exact { sound with
    head := sound.head.after_slot (Nat.lt_of_not_le within)
    near
    behind := by
      simp only [moved]
      omega }

theorem reclaim_sound (ran : t.reclaim newNext headers = (after, rest, done)) :
    after.Sound length ∧ after.tail = t.tail ∧ after.next = t.next ∧
      (done = some true → ¬ 0 < signed (minus newNext after.head)) := by
  induction headers generalizing t with
  | nil =>
    unfold reclaim at ran
    split at ran
    · cases ran
      exact ⟨sound, rfl, rfl, nofun⟩
    · next reached =>
      cases ran
      exact ⟨sound, rfl, rfl, fun _ => reached⟩
  | cons header others ih =>
    have read : Sound length { t with p := t.p.readAtomic t.head header } :=
      { sound with toSound := sound.read header }
    unfold reclaim at ran
    split at ran
    · simp only at ran
      split at ran
      · split at ran
        · cases ran
          exact ⟨read, rfl, rfl, nofun⟩
        next checked =>
        rw [read.length_eq] at checked
        have later := ih (read.advance checked) ran
        exact later
      · cases ran
        exact ⟨read, rfl, rfl, nofun⟩
    · next reached =>
      cases ran
      exact ⟨sound, rfl, rfl, fun _ => reached⟩

theorem Sound.moveNext (placed : Placed length newNext)
    (close : minus newNext t.tail ≤ 2 ^ 33) (reached : ¬ 0 < signed (minus newNext t.head)) :
    Sound length { t with next := newNext } := by
  have near := sound.near
  simp only [jump] at near
  have behind := le_of_signed_minus sound.head.word sound.tail.word (by omega) (by omega) reached
  exact { sound with next := placed, behind }

theorem flush_sound : t.flush.Sound length := by
  unfold flush
  split
  · exact sound
  have freed : (if t.next = t.head then t.p else t.p.write t.next slotFree).Sound length
      t.tail t.head := by
    split
    · exact sound.toSound
    · exact sound.write sound.next slotFree
  have near : minus t.head t.next ≤ jump := by
    have base := sound.tail.word
    have word := sound.next.word
    have behind := sound.behind
    have near := sound.near
    unfold minus at *
    omega
  exact { sound with
    toSound := { freed.write sound.tail t.tailHeader with tail := sound.next }
    behind := minus_self_le _ _
    near }

section

variable (placed : Placed length newNext) (close : minus newNext t.tail ≤ 2 ^ 33)
  (reached : ¬ 0 < signed (minus newNext t.head))
include placed close reached

theorem wrap_sound : (t.wrap messageAhead newNext).Sound length := by
  have moved := sound.moveNext placed close reached
  unfold wrap
  cases messageAhead with
  | true => exact { moved with toSound := sound.write sound.next _ }
  | false => exact flush_sound (moved.mark _)

theorem reserve_sound (room : offset t.next + 8 + payloadSize ≤ length) :
    (t.reserve messageAhead payloadSize newNext).1.Sound length ∧
      (t.reserve messageAhead payloadSize newNext).2.Inside length := by
  have moved := sound.moveNext placed close reached
  unfold reserve
  cases messageAhead with
  | true => exact ⟨{ moved with toSound := sound.write sound.next _ }, room⟩
  | false => exact ⟨moved.mark payloadSize, room⟩

end

theorem Sound.wrapped (small : payloadSize ≤ length - 16) :
    Placed length (plus (revolution (slotEnd t.next payloadSize)) jump) ∧
      minus (plus (revolution (slotEnd t.next payloadSize)) jump) t.tail ≤
        2 ^ 33 := by
  have room := sound.fits.room
  have bound := sound.fits.bound
  have inside := sound.next.inside
  have word := sound.next.word
  have base := sound.tail.word
  have behind := sound.behind
  have near := sound.near
  rw [slotEnd_eq (by omega)]
  have start : offset (plus (revolution (plus t.next ((payloadSize + 15) / 8 * 8))) jump) = 0 := by
    simp only [plus, revolution, jump, offset]
    omega
  refine ⟨⟨plus_lt _ _, by omega, ?_⟩, ?_⟩
  · simp only [plus, revolution, jump]
    omega
  · simp only [minus, plus, revolution, jump, offset] at *
    omega

theorem push_sound (calls : Nat) :
    (t.push payloadSize calls headers).1.Sound length ∧
      (t.push payloadSize calls headers).2.Inside length := by
  induction calls generalizing t headers with
  | zero => exact ⟨sound, trivial⟩
  | succ calls ih =>
    unfold push
    split
    · exact ⟨sound, trivial⟩
    next admissible =>
    have bound := sound.fits.bound
    have small : payloadSize ≤ length - 16 := by
      rw [← sound.limit]
      exact Nat.le_of_not_lt admissible
    have short : payloadSize < 2 ^ 33 := by omega
    simp only [sound.length_eq, sound.next.signed_minus_wrap bound short]
    split
    · obtain ⟨placed, close⟩ := sound.wrapped small
      split
      · next after rest ran =>
        obtain ⟨kept, tail, next, reached⟩ := reclaim_sound sound ran
        rw [← tail] at close
        exact ih (wrap_sound kept placed close (reached rfl))
      · next after rest ran => exact ⟨(reclaim_sound sound ran).1, trivial⟩
      · next after rest ran => exact ⟨(reclaim_sound sound ran).1, trivial⟩
    have inside : offset t.next + (payloadSize + 15) / 8 * 8 < length := by omega
    have placed := sound.next.fitting bound inside
    have close : minus (slotEnd t.next payloadSize) t.tail ≤ 2 ^ 33 := by
      have behind := sound.behind
      have near := sound.near
      simp only [jump] at near
      rw [slotEnd_eq (by omega), minus_plus sound.tail.word (by omega)]
      omega
    split
    · next after rest ran =>
      obtain ⟨kept, tail, next, reached⟩ := reclaim_sound sound ran
      rw [← tail] at close
      refine reserve_sound kept placed close (reached rfl) ?_
      rw [next]
      omega
    · next after rest ran => exact ⟨(reclaim_sound sound ran).1, trivial⟩
    · next after rest ran => exact ⟨(reclaim_sound sound ran).1, trivial⟩

theorem step_sound (op : Op) : (t.step op).Sound length := by
  cases op with
  | push payloadSize calls headers =>
    obtain ⟨kept, inside⟩ := push_sound sound calls
    exact { kept with toSound := kept.handOut inside }
  | flush => exact flush_sound sound
  | abort => exact { sound with next := sound.tail, behind := minus_self_le _ _ }

end

end Tx

/-! The receiver. -/

namespace Rx

variable {r : Rx}

theorem pull_sound (sound : r.p.Sound length r.tail r.head) (headers : List Nat) :
    (r.pull headers).1.p.Sound length (r.pull headers).1.tail (r.pull headers).1.head ∧
      (r.pull headers).2.Inside length := by
  induction headers generalizing r with
  | nil =>
    unfold pull
    split
    · exact ⟨sound, trivial⟩
    · exact ⟨sound, trivial⟩
  | cons header rest ih =>
    have read := sound.read header
    unfold pull
    split
    · exact ⟨sound, trivial⟩
    simp only
    split
    · exact ⟨read, trivial⟩
    have small : header % 2 ^ 32 < 2 ^ 32 := Nat.mod_lt _ (by decide)
    have room := sound.fits.room
    rw [read.length_eq, sound.head.signed_minus_wrap sound.fits.bound (by omega)]
    split
    · split
      · exact ⟨read, trivial⟩
      split
      · exact ⟨read, trivial⟩
      next first =>
      have start : offset (slotEnd r.head (header % 2 ^ 32)) < length := by
        omega
      have placed := sound.head.after_slot start
      split
      · apply ih
        exact { read.write sound.head _ with tail := placed, head := placed }
      · exact ih { read with head := placed }
    · have inside : offset r.head + (header % 2 ^ 32 + 15) / 8 * 8 < length := by omega
      have placed := sound.head.fitting sound.fits.bound inside
      refine ⟨{ read with head := placed }, ?_⟩
      simp only [Result.Inside, Pipe.data]
      omega

theorem step_sound (sound : r.p.Sound length r.tail r.head) (op : Op) :
    (r.step op).p.Sound length (r.step op).tail (r.step op).head := by
  cases op with
  | pull headers =>
    obtain ⟨kept, inside⟩ := pull_sound sound headers
    exact kept.handOut inside
  | flush =>
    simp only [step, flush]
    split
    · exact sound
    · exact { sound.write sound.tail _ with tail := sound.head }
  | abort => exact { sound with head := sound.tail }

end Rx

/-- Whatever the peer writes, an end whose buffer has room for two headers keeps to it. -/
theorem ends_keep_to_buffer (buffer : Nat) (room : 16 ≤ buffer) (bound : buffer ≤ 2 ^ 31) :
    (∀ ops : List Tx.Op, (ops.foldl Tx.step (Tx.init buffer)).p.Inside (Pipe.init buffer).length ∧
        minus (ops.foldl Tx.step (Tx.init buffer)).head
          (ops.foldl Tx.step (Tx.init buffer)).tail ≤ jump) ∧
    ∀ ops : List Rx.Op, (ops.foldl Rx.step (Rx.init buffer)).p.Inside (Pipe.init buffer).length := by
  have fits : Fits (buffer / 8 * 8) := by constructor <;> omega
  constructor
  · intro ops
    have sound : (ops.foldl Tx.step (Tx.init buffer)).Sound (buffer / 8 * 8) :=
      List.foldlRecOn ops Tx.step (Tx.init_sound fits) fun _ sound op _ => Tx.step_sound sound op
    exact ⟨sound.inside, sound.near⟩
  · intro ops
    have start := Pipe.first_placed fits
    have sound := List.foldlRecOn (motive := fun r => r.p.Sound (buffer / 8 * 8) r.tail r.head)
      ops Rx.step (b := Rx.init buffer)
      { fits, length_eq := rfl, tail := start, head := start
        inside := Pipe.init_inside buffer }
      fun _ sound op _ => Rx.step_sound sound op
    exact sound.inside

/-- The second push wraps around and then meets a header with a size far too large. -/
def hostilePushes : List Tx.Op :=
  [.push 4 1 [], .flush, .push 16 2 [slotFree + 8, slotFree + (2 ^ 32 - 1)], .push 0 1 [slotFree]]

/-- The second pull does the same. -/
def hostilePulls : List Rx.Op :=
  [.pull [4], .flush, .pull [2 ^ 32 - 24, 2 ^ 32 - 1], .pull [7], .abort]

theorem hostile_headers_kept_to :
    let t := hostilePushes.foldl Tx.step (Tx.init 36)
    let r := hostilePulls.foldl Rx.step (Rx.init 36)
    (t.p.accesses =
        [.write 0 slotFree, .slice 8 4, .write 16 slotFree, .write 0 4, .write 16 (2 ^ 32 - 24),
          .read 0 (slotFree + 8), .read 16 (slotFree + (2 ^ 32 - 1)), .slice 8 0] ∧
      t.p.Inside 32 ∧ minus t.head t.tail ≤ jump) ∧
    r.p.accesses =
        [.read 0 4, .slice 8 4, .write 0 (slotFree + 8), .read 16 (2 ^ 32 - 24),
          .write 16 (slotFree + (2 ^ 32 - 24)), .read 0 (2 ^ 32 - 1), .read 0 7, .slice 8 7] ∧
      r.p.Inside 32 := by
  obtain ⟨sends, receives⟩ := ends_keep_to_buffer 36 (by decide) (by decide)
  exact ⟨⟨by decide +kernel, sends hostilePushes⟩, by decide +kernel, receives hostilePulls⟩

/-- Without room for a header the first write lies outside; with room for one only, the limit on
payloads wraps around, and a huge one takes the tail past the head. -/
theorem short_buffers_overrun :
    (¬ (Tx.init 7).p.Inside (Pipe.init 7).length) ∧
      minus ((Tx.init 8).step (.push (2 ^ 63 - 8) 2 [0])).head
        ((Tx.init 8).step (.push (2 ^ 63 - 8) 2 [0])).tail = 2 ^ 63 := by
  constructor
  · intro inside
    have outside := inside (.write 0 slotFree) (List.mem_singleton.mpr rfl)
    exact absurd outside.2 (by decide)
  · decide +kernel

end BVisor.SharedMem
