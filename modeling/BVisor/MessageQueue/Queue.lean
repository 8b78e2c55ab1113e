import BVisor.Data.Run

/-! System V message queues: the counts of a queue and the message a receiver gets. -/

namespace BVisor.MessageQueue

open List

structure Message where
  type : Int
  text : List UInt8
  deriving DecidableEq

inductive Errno where
  | einval | eacces | eidrm | e2big | wouldBlock
  deriving DecidableEq

/-- The flags of a receiver that concern the choice of the message. -/
structure Flags where
  copy : Bool
  except : Bool
  noError : Bool

/-- The counts are natural numbers: the texts of a queue are all in memory at once. -/
structure Queue where
  messages : List Message
  byteCount : Nat
  messageCount : Nat
  maxBytes : Nat
  dead : Bool
  deriving DecidableEq

def newQueue (maxBytes : Nat) : Queue :=
  ⟨[], 0, 0, maxBytes, false⟩

/-- A message with its place in the queue, 0 for the oldest. -/
abbrev Entry := Message × Nat

def int64 (value : Int) : Int :=
  (value + 2 ^ 63) % 2 ^ 64 - 2 ^ 63

def msgOfType (entries : List Entry) (mType : Int) (except : Bool) : Option Entry :=
  entries.find? fun entry => decide (entry.1.type = mType) != except

def lowestFrom (mType : Int) : List Entry → Int → Option Entry → Option Entry
  | [], _, found => found
  | entry :: rest, min, found =>
    if entry.1.type ≤ mType ∧ entry.1.type < min then
      lowestFrom mType rest entry.1.type (some entry)
    else lowestFrom mType rest min found

def msgOfTypeLessThan (entries : List Entry) (mType : Int) : Option Entry :=
  lowestFrom mType entries mType none

def msgAtIndex (entries : List Entry) (mType : Int) : Option Entry :=
  if mType < 0 then none else entries[mType.toNat]?

def select (entries : List Entry) (mType : Int) (flags : Flags) : Option Entry :=
  if flags.copy then msgAtIndex entries mType
  else if mType = 0 then entries.head?
  else if mType > 0 then msgOfType entries mType flags.except
  else msgOfTypeLessThan entries (int64 (-1 * mType))

namespace Queue

def entries (queue : Queue) : List Entry :=
  queue.messages.zipIdx

def push (queue : Queue) (mayWrite : Bool) (m : Message) : Except Errno Queue :=
  if m.type ≤ 0 then .error .einval
  else if !mayWrite then .error .eacces
  else if queue.dead then .error .eidrm
  else if m.text.length + queue.byteCount > queue.maxBytes ∨ queue.messageCount + 1 > queue.maxBytes then
    .error .wouldBlock
  else .ok { queue with
    messages := queue.messages ++ [m]
    byteCount := queue.byteCount + m.text.length
    messageCount := queue.messageCount + 1 }

def remove (queue : Queue) (entry : Entry) : Queue :=
  { queue with
    messages := queue.messages.eraseIdx entry.2
    byteCount := queue.byteCount - entry.1.text.length
    messageCount := queue.messageCount - 1 }

def pop (queue : Queue) (mayRead : Bool) (mType : Int) (maxSize : Nat) (flags : Flags) :
    Except Errno (Message × Queue) :=
  if !mayRead then .error .eacces
  else if queue.dead then .error .eidrm
  else if queue.messages.isEmpty then .error .wouldBlock
  else
    match select queue.entries mType flags with
    | none => .error .wouldBlock
    | some entry =>
      if maxSize < entry.1.text.length ∧ !flags.noError then .error .e2big
      else if maxSize < entry.1.text.length ∧ flags.copy then .error .einval
      else if flags.copy then .ok (entry.1, queue)
      else .ok (entry.1, queue.remove entry)

end Queue

/-! What `msgrcv(2)` prescribes. -/

def Eligible (mType : Int) (except : Bool) (m : Message) : Prop :=
  if mType = 0 then True
  else if mType > 0 then if except then m.type ≠ mType else m.type = mType
  else m.type ≤ -mType

/-- Is `first` to be taken before `second`? -/
def Precedes (mType : Int) (first second : Entry) : Prop :=
  if mType < 0 then
    first.1.type < second.1.type ∨ first.1.type = second.1.type ∧ first.2 ≤ second.2
  else first.2 ≤ second.2

def Prescribed (entries : List Entry) (mType : Int) (except : Bool) (entry : Entry) : Prop :=
  entry ∈ entries ∧ Eligible mType except entry.1 ∧
    ∀ other ∈ entries, Eligible mType except other.1 → Precedes mType entry other

/-- A receiver gets the prescribed message unless it is too big, or is told that there is none. -/
def Queue.Gives (queue : Queue) (mType : Int) (maxSize : Nat) (flags : Flags) : Prop :=
  (∃ entry, Prescribed queue.entries mType flags.except entry ∧
    queue.pop true mType maxSize flags =
      if maxSize < entry.1.text.length ∧ flags.noError = false then .error .e2big
      else .ok (entry.1, queue.remove entry)) ∨
  (queue.pop true mType maxSize flags = .error .wouldBlock ∧
    ∀ m ∈ queue.messages, ¬ Eligible mType flags.except m)

theorem int64_neg {mType : Int} (inside : -2 ^ 63 ≤ mType) (negative : mType < 0) :
    int64 (-1 * mType) = if mType = -2 ^ 63 then -2 ^ 63 else -mType := by
  unfold int64
  omega

section Selection

variable {entries : List Entry} {mType : Int} {except : Bool} {flags : Flags}
  (sorted : entries.Pairwise fun first second => first.2 < second.2) {entry : Entry}
include sorted

theorem find_oldest {wanted : Entry → Bool} (found : entries.find? wanted = some entry) :
    ∀ other ∈ entries, wanted other = true → entry.2 ≤ other.2 := by
  obtain ⟨-, before, after, rfl, unwanted⟩ := List.find?_eq_some_iff_append.mp found
  intro other member isWanted
  have order := (pairwise_append.mp sorted).2.1
  rcases mem_append.mp member with earlier | later
  · have rejected := unwanted other earlier
    simp [isWanted] at rejected
  · rcases mem_cons.mp later with rfl | later
    · exact Nat.le_refl _
    · exact Nat.le_of_lt (rel_of_pairwise_cons order later)

/-- The search goes strictly below its bound, to the oldest entry of the lowest type. -/
theorem lowestFrom_spec (min : Int) (found : Option Entry) (below : min ≤ mType) :
    (lowestFrom mType entries min found = found ∧ ∀ entry ∈ entries, min ≤ entry.1.type) ∨
    ∃ entry ∈ entries, lowestFrom mType entries min found = some entry ∧
      entry.1.type < min ∧
      ∀ other ∈ entries, entry.1.type < other.1.type ∨
        entry.1.type = other.1.type ∧ entry.2 ≤ other.2 := by
  induction entries generalizing min found with
  | nil => exact .inl ⟨rfl, by simp⟩
  | cons head rest ih =>
    obtain ⟨after, restSorted⟩ := pairwise_cons.mp sorted
    unfold lowestFrom
    split
    next lower =>
      refine .inr ?_
      obtain ⟨result, above⟩ | ⟨entry, member, result, less, first⟩ :=
        ih restSorted head.1.type (some head) lower.1
      · refine ⟨head, mem_cons_self, result, lower.2, forall_mem_cons.mpr ⟨?_, ?_⟩⟩
        · exact .inr ⟨rfl, Nat.le_refl _⟩
        · intro other inRest
          have := above other inRest
          have := after other inRest
          omega
      · exact ⟨entry, mem_cons_of_mem _ member, result, by omega,
          forall_mem_cons.mpr ⟨.inl less, first⟩⟩
    next notLower =>
      obtain ⟨result, above⟩ | ⟨entry, member, result, less, first⟩ := ih restSorted min found below
      · exact .inl ⟨result, forall_mem_cons.mpr ⟨by omega, above⟩⟩
      · exact .inr ⟨entry, mem_cons_of_mem _ member, result, less, forall_mem_cons.mpr ⟨by omega, first⟩⟩

/-- A search for the lowest type finds what is prescribed if some entry is strictly below its bound,
or none is eligible. -/
theorem select_prescribed (noCopy : flags.copy = false) (inside : -2 ^ 63 ≤ mType)
    (strict : mType < 0 → (∃ entry ∈ entries, entry.1.type ≤ -mType) →
      -2 ^ 63 < mType ∧ ∃ entry ∈ entries, entry.1.type < -mType) :
    (∃ entry, select entries mType flags = some entry ∧
      Prescribed entries mType flags.except entry) ∨
    (select entries mType flags = none ∧
      ∀ entry ∈ entries, ¬ Eligible mType flags.except entry.1) := by
  simp only [select, Prescribed, Eligible, Precedes, noCopy, Bool.false_eq_true, if_false]
  rcases Int.lt_trichotomy mType 0 with negative | rfl | positive
  · simp only [Int.ne_of_lt negative, Int.not_lt.mpr (Int.le_of_lt negative), negative, if_true, if_false]
    have negated := int64_neg inside negative
    obtain ⟨result, above⟩ | ⟨entry, member, result, less, first⟩ :=
      lowestFrom_spec sorted (int64 (-1 * mType)) none (Int.le_refl _)
    · refine .inr ⟨result, fun entry member eligible => ?_⟩
      obtain ⟨notLeast, lower, lowerMember, below⟩ := strict negative ⟨entry, member, eligible⟩
      have := above lower lowerMember
      omega
    · exact .inl ⟨entry, result, member, by omega, fun other inside _ => first other inside⟩
  · cases entries with
    | nil => simp
    | cons head rest =>
      refine .inl ⟨head, rfl, mem_cons_self, by simp, ?_⟩
      intro other member _
      rcases mem_cons.mp member with rfl | later
      · exact Nat.le_refl _
      · exact Nat.le_of_lt (rel_of_pairwise_cons sorted later)
  · have wanted (m : Message) : (decide (m.type = mType) != flags.except) = true ↔
        if flags.except then m.type ≠ mType else m.type = mType := by
      cases flags.except <;> simp
    simp only [Int.ne_of_gt positive, Int.not_lt.mpr (Int.le_of_lt positive), positive,
      if_true, if_false, ← wanted]
    cases found : msgOfType entries mType flags.except with
    | none => exact .inr ⟨rfl, fun entry member => List.find?_eq_none.mp found entry member⟩
    | some entry =>
      have isWanted := @List.find?_some _ _ entry entries found
      exact .inl ⟨entry, rfl, mem_of_find?_eq_some found, isWanted, find_oldest sorted found⟩

theorem select_none (noCopy : flags.copy = false) (inside : -2 ^ 63 ≤ mType) (negative : mType < 0)
    (positive : ∀ entry ∈ entries, 0 < entry.1.type)
    (noneLower : -2 ^ 63 < mType → ∀ entry ∈ entries, -mType ≤ entry.1.type) :
    select entries mType flags = none := by
  simp only [select, noCopy, Int.ne_of_lt negative, Int.not_lt.mpr (Int.le_of_lt negative),
    Bool.false_eq_true, if_false]
  have negated := int64_neg inside negative
  obtain ⟨result, -⟩ | ⟨entry, member, -, less, -⟩ :=
    lowestFrom_spec sorted (int64 (-1 * mType)) none (Int.le_refl _)
  · exact result
  · have := positive entry member
    have := fun notLeast => noneLower notLeast entry member
    omega

theorem select_mem (found : select entries mType flags = some entry) : entry ∈ entries := by
  unfold select at found
  split at found
  · unfold msgAtIndex at found
    split at found
    · cases found
    · exact mem_of_getElem? found
  split at found
  · exact mem_of_head? found
  split at found
  · exact mem_of_find?_eq_some found
  obtain ⟨result, -⟩ | ⟨other, member, result, -⟩ :=
    lowestFrom_spec sorted (int64 (-1 * mType)) none (Int.le_refl _)
  · cases result.symm.trans found
  · cases result.symm.trans found
    exact member

end Selection

theorem Queue.entries_sorted (queue : Queue) : queue.entries.Pairwise fun first second => first.2 < second.2 := by
  unfold entries
  rw [pairwise_iff_getElem]
  intro i j iInside jInside before
  simpa using before

/-- The counts are those of the messages. -/
def Queue.Counted (queue : Queue) : Prop :=
  queue.byteCount = (queue.messages.map fun m => m.text.length).sum ∧
    queue.messageCount = queue.messages.length

/-- A queue in use, with messages that could be sent. -/
structure Queue.OK (queue : Queue) : Prop where
  counted : queue.Counted
  alive : queue.dead = false
  positive : ∀ m ∈ queue.messages, 0 < m.type

inductive Event where
  | send (mayWrite : Bool) (m : Message)
  | receive (mayRead : Bool) (mType : Int) (maxSize : Nat) (flags : Flags)

/-- A call that succeeds. -/
def step (queue : Queue) : Event → Option Queue
  | .send mayWrite m => (queue.push mayWrite m).toOption
  | .receive mayRead mType maxSize flags =>
    (queue.pop mayRead mType maxSize flags).toOption.map Prod.snd

namespace Queue

variable {queue after : Queue} {mayWrite mayRead : Bool} {mType : Int} {maxSize : Nat}
  {flags : Flags} {m : Message}

theorem push_ok (pushed : queue.push mayWrite m = .ok after) :
    0 < m.type ∧ ¬ (m.text.length + queue.byteCount > queue.maxBytes ∨ queue.messageCount + 1 > queue.maxBytes) ∧
    after = { queue with
      messages := queue.messages ++ [m]
      byteCount := queue.byteCount + m.text.length
      messageCount := queue.messageCount + 1 } := by
  unfold push at pushed
  repeat' split at pushed
  all_goals cases pushed
  next positive _ _ notFull => exact ⟨Int.not_le.mp positive, notFull, rfl⟩

theorem pop_ok (popped : queue.pop mayRead mType maxSize flags = .ok (m, after)) :
    ∃ entry, select queue.entries mType flags = some entry ∧
      after = if flags.copy then queue else queue.remove entry := by
  unfold pop at popped
  repeat' split at popped
  all_goals cases popped
  next entry found _ _ copies => exact ⟨entry, found, by rw [if_pos copies]⟩
  next entry found _ _ takes => exact ⟨entry, found, by rw [if_neg takes]⟩

theorem Counted.push (counted : queue.Counted) (pushed : queue.push mayWrite m = .ok after) :
    after.Counted ∧ after.byteCount ≤ after.maxBytes ∧ after.messageCount ≤ after.maxBytes := by
  obtain ⟨bytes, count⟩ := counted
  obtain ⟨-, notFull, rfl⟩ := push_ok pushed
  refine ⟨⟨?_, ?_⟩, by dsimp only; omega, by dsimp only; omega⟩
  · simp [bytes]
  · simp [count]

theorem Counted.pop (counted : queue.Counted)
    (popped : queue.pop mayRead mType maxSize flags = .ok (m, after)) : after.Counted := by
  obtain ⟨bytes, count⟩ := counted
  obtain ⟨entry, selected, rfl⟩ := pop_ok popped
  split
  · exact ⟨bytes, count⟩
  have found := mem_zipIdx_iff_getElem?.mp (select_mem queue.entries_sorted selected)
  obtain ⟨inside, same⟩ := List.getElem?_eq_some_iff.mp found
  have perm := getElem_cons_eraseIdx_perm inside
  rw [same] at perm
  have sizes := (perm.map fun m => m.text.length).sum_eq
  have lengths := perm.length_eq
  simp only [map_cons, sum_cons, length_cons] at sizes lengths
  simp only [Counted, remove]
  omega

theorem exists_entry {wanted : Message → Prop} :
    (∃ entry ∈ queue.entries, wanted entry.1) ↔ ∃ m ∈ queue.messages, wanted m := by
  constructor
  · rintro ⟨entry, member, holds⟩
    exact ⟨entry.1, fst_mem_of_mem_zipIdx member, holds⟩
  · rintro ⟨m, member, holds⟩
    obtain ⟨i, found⟩ := mem_iff_getElem?.mp member
    exact ⟨(m, i), mem_zipIdx_iff_getElem?.mpr found, holds⟩

variable (alive : queue.dead = false) (noCopy : flags.copy = false) (inside : -2 ^ 63 ≤ mType)
include alive noCopy inside

theorem pop_prescribed
    (strict : mType < 0 → (∃ m ∈ queue.messages, m.type ≤ -mType) →
      -2 ^ 63 < mType ∧ ∃ m ∈ queue.messages, m.type < -mType) :
    queue.Gives mType maxSize flags := by
  obtain ⟨entry, selected, prescribed⟩ | ⟨selected, noneEligible⟩ :=
    select_prescribed queue.entries_sorted noCopy inside fun negative eligible =>
      (strict negative ((@exists_entry queue fun m => m.type ≤ -mType).mp eligible)).imp_right
        (@exists_entry queue fun m => m.type < -mType).mpr
  · have nonempty : queue.messages.isEmpty = false :=
      isEmpty_eq_false_iff_exists_mem.mpr ⟨_, fst_mem_of_mem_zipIdx prescribed.1⟩
    refine .inl ⟨entry, prescribed, ?_⟩
    simp [pop, alive, nonempty, selected, noCopy]
  · refine .inr ⟨?_, fun m member => ?_⟩
    · simp [pop, alive, selected]
    · intro eligible
      obtain ⟨entry, placed, holds⟩ := exists_entry.mpr ⟨m, member, eligible⟩
      exact noneEligible entry placed holds

theorem gives_iff (positive : ∀ m ∈ queue.messages, 0 < m.type) :
    queue.Gives mType maxSize flags ↔
      (mType < 0 → (∃ m ∈ queue.messages, m.type ≤ -mType) →
        -2 ^ 63 < mType ∧ ∃ m ∈ queue.messages, m.type < -mType) := by
  refine ⟨fun gives negative => ?_, pop_prescribed alive noCopy inside⟩
  rintro ⟨m, member, eligible⟩
  by_contra missed
  have selected : select queue.entries mType flags = none := by
    refine select_none queue.entries_sorted noCopy inside negative ?_ ?_
    · exact fun entry placed => positive entry.1 (fst_mem_of_mem_zipIdx placed)
    · exact fun notLeast entry placed => Int.not_lt.mp fun lower =>
        missed ⟨notLeast, entry.1, fst_mem_of_mem_zipIdx placed, lower⟩
  have popped : queue.pop true mType maxSize flags = .error .wouldBlock := by
    simp [pop, alive, selected]
  rcases gives with ⟨entry, _, given⟩ | ⟨_, noneEligible⟩
  · rw [popped] at given
    split at given <;> cases given
  · refine noneEligible m member ?_
    simpa [Eligible, Int.ne_of_lt negative, Int.not_lt.mpr (Int.le_of_lt negative)] using eligible

end Queue

theorem step_ok {queue next : Queue} {event : Event} (ok : queue.OK)
    (stepped : step queue event = some next) : next.OK := by
  cases event with
  | send mayWrite m =>
    cases pushed : queue.push mayWrite m with
    | error error => simp [step, pushed, Except.toOption] at stepped
    | ok after =>
      simp only [step, pushed, Except.toOption, Option.some.injEq] at stepped
      subst next
      have counted := (ok.counted.push pushed).1
      obtain ⟨positive, -, rfl⟩ := Queue.push_ok pushed
      refine ⟨counted, ok.alive, fun other member => ?_⟩
      rcases mem_append.mp member with earlier | last
      · exact ok.positive other earlier
      · exact mem_singleton.mp last ▸ positive
  | receive mayRead mType maxSize flags =>
    cases popped : queue.pop mayRead mType maxSize flags with
    | error error => simp [step, popped, Except.toOption] at stepped
    | ok result =>
      simp only [step, popped, Except.toOption, Option.map_some, Option.some.injEq] at stepped
      subst next
      have counted := ok.counted.pop popped
      obtain ⟨entry, -, after⟩ := Queue.pop_ok popped
      rw [after] at counted ⊢
      cases copies : flags.copy with
      | true => exact ok
      | false =>
        rw [copies] at counted
        exact ⟨counted, ok.alive, fun other member => ok.positive other (eraseIdx_subset member)⟩

/-- After any successful calls the counts are right and a push keeps to the limit. A receiver gets
the message that is prescribed exactly if, for a negative `mType` with an eligible message, there is
one strictly below `-mType` and that bound is an int64. -/
theorem receive_follows_msgrcv (maxBytes : Nat) (events : List Event) (queue : Queue)
    (ran : Data.run step (newQueue maxBytes) events = some queue) :
    queue.Counted ∧
    (∀ mayWrite m after, queue.push mayWrite m = .ok after →
      after.byteCount ≤ after.maxBytes ∧ after.messageCount ≤ after.maxBytes) ∧
    ∀ mType maxSize flags, -2 ^ 63 ≤ mType → flags.copy = false →
      (queue.Gives mType maxSize flags ↔
        (mType < 0 → (∃ m ∈ queue.messages, m.type ≤ -mType) →
          -2 ^ 63 < mType ∧ ∃ m ∈ queue.messages, m.type < -mType)) := by
  have ok : queue.OK := Data.run_invariant Queue.OK (fun _ _ _ => step_ok) ran
    ⟨⟨rfl, rfl⟩, rfl, fun _ => not_mem_nil.elim⟩
  exact ⟨ok.counted, fun _ _ _ pushed => (ok.counted.push pushed).2,
    fun _ _ _ inside noCopy => Queue.gives_iff ok.alive noCopy inside ok.positive⟩

/-- Four messages are sent and one is received. -/
def fourSent : List Event :=
  [.send true ⟨3, [1]⟩, .send true ⟨7, []⟩, .send true ⟨2, [5, 6]⟩, .send true ⟨2, [4]⟩,
    .receive true 7 0 ⟨false, false, false⟩]

/-- A message has the type of the bound, but there are two of a lower type. -/
theorem lower_type_received :
    ∃ queue, Data.run step (newQueue 8) fourSent = some queue ∧ queue.Counted ∧
      queue.Gives (-3) 8 ⟨false, false, false⟩ ∧
      (queue.pop true (-3) 8 ⟨false, false, false⟩).toOption.map Prod.fst = some ⟨2, [5, 6]⟩ := by
  refine ⟨_, rfl, ?_⟩
  obtain ⟨counted, -, received⟩ := receive_follows_msgrcv 8 fourSent _ rfl
  exact ⟨counted, (received (-3) 8 ⟨false, false, false⟩ (by decide) rfl).mpr (by decide), by decide⟩

/-- The lowest type at most 3 is 3 itself, but the search asks for less than 3. -/
theorem equal_type_missed :
    ∃ queue, Data.run step (newQueue 8) [.send true ⟨3, [1]⟩] = some queue ∧
      queue.pop true (-3) 8 ⟨false, false, false⟩ = .error .wouldBlock ∧
      Prescribed queue.entries (-3) false (⟨3, [1]⟩, 0) :=
  ⟨_, rfl, rfl, by simp [Prescribed, Eligible, Precedes, Queue.entries, newQueue]⟩

end BVisor.MessageQueue
