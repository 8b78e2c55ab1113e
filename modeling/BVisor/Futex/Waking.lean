import BVisor.Data.Placement
import BVisor.Futex.Manager

/-! # Woken waiters return success -/

namespace BVisor.Futex

open Data List Option State

variable {s : State} {task w : Task} {b c : BucketID} {l : Location} {call : Call}

/-! ## Owners named by futex words -/

theorem masked_or (x y : UInt32) :
    (x ||| y) &&& FUTEX_TID_MASK = (x &&& FUTEX_TID_MASK) ||| (y &&& FUTEX_TID_MASK) :=
  UInt32.toBitVec_inj.mp (by simp [BitVec.and_or_distrib_right])

theorem names_masked {word other : UInt32} (same : word &&& FUTEX_TID_MASK = other &&& FUTEX_TID_MASK) :
    names word task = names other task := by
  simp only [names, same]

theorem names_waiters (word : UInt32) : names (word ||| FUTEX_WAITERS) task = names word task := by
  apply names_masked
  have cleared : FUTEX_WAITERS &&& FUTEX_TID_MASK = 0 := by decide
  rw [masked_or, cleared, UInt32.or_zero]

theorem names_tid (owner task : Task) : names owner.tid task = decide (owner = task) := by
  simp only [names, owner.masked]
  by_cases same : owner = task
  · simp [same]
  simp only [same, decide_false, decide_eq_false_iff_not]
  intro equal
  cases owner
  cases task
  cases equal
  exact same rfl

theorem names_zero (task : Task) : names 0 task = false := by
  simp only [names, UInt32.zero_and, decide_eq_false_iff_not]
  exact task.positive.symm

theorem names_acquired (owner task : Task) (cur : UInt32) :
    names (owner.tid ||| (cur &&& FUTEX_OWNER_DIED)) task = decide (owner = task) := by
  rw [← names_tid]
  apply names_masked
  have cleared : FUTEX_OWNER_DIED &&& FUTEX_TID_MASK = 0 := by decide
  rw [masked_or, UInt32.and_assoc, cleared, UInt32.and_zero, UInt32.or_zero]

/-! ## The invariant -/

structure TaskSound (words : Location → UInt32) (task : Task) (waiter : Waiter)
    (phase : Phase) : Prop where
  silent : waiter.bucket ≠ none → waiter.woken = false ∧ waiter.counted = false
  running : phase = .running → waiter.bucket = none
  tid : waiter.tid = 0 ∨ waiter.tid = task.tid
  ready : ∀ call, phase = .blocked call → waiter.bucket = none → waiter.woken = true
  failed : ∀ call err, phase = .leaving call (some err) → waiter.bucket ≠ none
  unowned : ∀ call, phase.call = some call → call.function = .futexLockPI →
    waiter.bucket ≠ none → names (words call.word) task = false

/-- What a return has to be: success if the waiter was counted, and no error while the word names
the caller of `futexLockPI`, unless the word named the caller when it asked. -/
structure Return.Right (r : Return) : Prop where
  success : r.counted = true → r.result = none
  disowned : r.function = .futexLockPI → ∀ err, r.result = some err → r.owner = true → err = .EDEADLK

structure State.Sound (s : State) : Prop where
  placed : Placed s.buckets fun task => (s.waiters task).bucket
  tasks : ∀ task, TaskSound s.words task (s.waiters task) (s.calls task)
  returned : ∀ r ∈ s.returns, r.Right

theorem State.init_sound (words : Location → UInt32) : (init words).Sound := by
  constructor
  · constructor
    · intro b task
      simp [init]
    · intro b
      exact nodup_nil
  · intro task
    constructor <;> simp [init, Phase.call]
  · intro r member
    cases member

variable {after : State} {buckets : BucketID → List Task} {waiter : Waiter}

section

variable (sound : s.Sound)
  (placed : Placed buckets (Function.update (fun other => (s.waiters other).bucket) task waiter.bucket))
include sound placed

theorem State.Sound.put {phase : Phase} (self : TaskSound s.words task waiter phase) :
    State.Sound { s with
      buckets, waiters := Function.update s.waiters task waiter, calls := Function.update s.calls task phase } := by
  constructor
  · exact (congrArg (Placed buckets) (Function.comp_update Waiter.bucket s.waiters task waiter)).mpr placed
  · intro other
    by_cases same : other = task
    · subst other
      simpa using self
    · simpa [Function.update_of_ne same] using sound.tasks other
  · exact sound.returned

theorem State.Sound.putWaiter (self : TaskSound s.words task waiter (s.calls task)) :
    State.Sound { s with buckets, waiters := Function.update s.waiters task waiter } := by
  have put := sound.put placed self
  rwa [Function.update_eq_self] at put

end

theorem State.Sound.putCall (sound : s.Sound) {phase : Phase}
    (self : TaskSound s.words task (s.waiters task) phase) : (s.setCall task phase).Sound := by
  have placed := sound.placed
  rw [← Function.update_eq_self task fun other => (s.waiters other).bucket] at placed
  have put := sound.put placed self
  rwa [Function.update_eq_self] at put

/-- A value that names no task waiting for this word in `futexLockPI`. -/
def State.Harmless (s : State) (l : Location) (value : UInt32) : Prop :=
  ∀ task call, (s.calls task).call = some call → call.function = .futexLockPI → call.word = l →
    (s.waiters task).bucket ≠ none → names value task = false

theorem State.Sound.harmless (sound : s.Sound) (l : Location) : s.Harmless l (s.words l) := by
  intro task call waits locks word queued
  rw [← word]
  exact (sound.tasks task).unowned call waits locks queued

variable {value : UInt32}

theorem State.Sound.setWord (sound : s.Sound) (harmless : s.Harmless l value) :
    (s.setWord l value).Sound := by
  constructor
  · exact sound.placed
  · intro task
    obtain ⟨silent, running, tid, ready, failed, unowned⟩ := sound.tasks task
    refine ⟨silent, running, tid, ready, failed, ?_⟩
    intro call waits locks queued
    by_cases here : call.word = l
    · simp only [State.setWord, here, Function.update_self]
      exact harmless task call waits locks here queued
    · simp only [State.setWord, Function.update_of_ne here]
      exact unowned call waits locks queued
  · exact sound.returned

variable {function : Function}
  {word : Option Location} {result : Option Errno} {bitmask : UInt32} {n : Int}

open State.Sound

section

variable (sound : s.Sound)
include sound

theorem State.Sound.finish (idle : (s.waiters task).bucket = none)
    (right : (Return.mk task function result (s.waiters task).counted
      (word.any fun l => names (s.words l) task)).Right) :
    (s.finish task function word result).Sound := by
  constructor
  · exact sound.placed
  · intro other
    by_cases same : other = task
    · subst other
      constructor <;> simp [State.finish, idle, Phase.call, (sound.tasks _).tid]
    · simp only [State.finish, Function.update_of_ne same]
      exact sound.tasks other
  · intro r member
    obtain earlier | last := mem_append.mp member
    · exact sound.returned r earlier
    · cases mem_singleton.mp last
      exact right

/-! ## Waiters enter, move and leave -/

theorem State.Sound.prepare (running : s.calls task = .running) (waiter : Waiter) (bucket : waiter.bucket = none)
    (tid : waiter.tid = 0 ∨ waiter.tid = task.tid) : (s.setWaiter task waiter).Sound := by
  have idle := (sound.tasks task).running running
  apply sound.putWaiter
  · rw [bucket, ← idle, Function.update_eq_self]
    exact sound.placed
  · constructor <;> simp [bucket, running, tid, Phase.call]

theorem State.Sound.enqueue (idle : (s.waiters task).bucket = none)
    (silent : (s.waiters task).woken = false ∧ (s.waiters task).counted = false)
    (unowned : call.function = .futexLockPI → names (s.words call.word) task = false) :
    (s.enqueue task b call).Sound := by
  apply sound.put
  · exact sound.placed.add idle b
  · refine ⟨fun _ => silent, nofun, (sound.tasks task).tid, nofun, nofun, ?_⟩
    intro called same locks queued
    cases same
    exact unowned locks

theorem State.Sound.wakeWaiterLocked (queued : (s.waiters w).bucket = some b)
    (blocked : s.calls w = .blocked call) : (s.wakeWaiterLocked b w).Sound := by
  apply sound.putWaiter
  · exact sound.placed.remove queued
  · constructor <;> simp [blocked, (sound.tasks w).tid]

theorem State.Sound.count (idle : (s.waiters w).bucket = none) :
    (s.count w).Sound := by
  obtain ⟨silent, running, tid, ready, failed, unowned⟩ := sound.tasks w
  apply sound.putWaiter
  · rw [Function.update_eq_self]
    exact sound.placed
  · exact ⟨absurd idle, running, tid, ready, failed, fun _ _ _ => absurd idle⟩

theorem State.Sound.requeueWaiter (queued : (s.waiters w).bucket = some b)
    (nkey : Key) : (s.requeueWaiter b c nkey w).Sound := by
  obtain ⟨silent, running, tid, ready, failed, unowned⟩ := sound.tasks w
  have inside : (s.waiters w).bucket ≠ none := by simp [queued]
  apply sound.putWaiter
  · exact sound.placed.move queued c
  · refine ⟨fun _ => silent inside, ?_, tid, nofun, nofun, ?_⟩
    · intro stopped
      exact absurd (running stopped) inside
    · intro called waits locks still
      exact unowned called waits locks inside

/-! ## The loops -/

omit sound in
theorem swapLoop_spec {ρ : Type} (turn : UInt32 → Turn ρ) (stores : List UInt32) (cur : UInt32) :
    ∃ seen, (seen = cur ∨ seen ∈ stores) ∧
      ((∃ result, turn seen = .leave result ∧ swapLoop turn stores cur = (seen, result)) ∨
        ∃ new result, turn seen = .swap new result ∧ swapLoop turn stores cur = (new, result)) := by
  induction stores generalizing cur with
  | nil =>
    cases turned : turn cur with
    | leave result => exact ⟨cur, .inl rfl, .inl ⟨result, turned, by simp [swapLoop, turned]⟩⟩
    | swap new result =>
      exact ⟨cur, .inl rfl, .inr ⟨new, result, turned, by simp [swapLoop, turned]⟩⟩
  | cons stored rest ih =>
    cases turned : turn cur with
    | leave result => exact ⟨cur, .inl rfl, .inl ⟨result, turned, by simp [swapLoop, turned]⟩⟩
    | swap new result =>
      by_cases unchanged : stored = cur
      · exact ⟨cur, .inl rfl, .inr ⟨new, result, turned, by simp [swapLoop, turned, unchanged]⟩⟩
      obtain ⟨seen, origin, ends⟩ := ih stored
      have again : swapLoop turn (stored :: rest) cur = swapLoop turn rest stored := by
        simp [swapLoop, turned, unchanged]
      rw [again]
      exact ⟨seen, .inr (mem_cons.mpr origin), ends⟩

def State.Blocked (s : State) (w : Task) : Prop :=
  ∃ call, s.calls w = .blocked call

def State.selected (s : State) (b : BucketID) (key : Key) (bitmask : UInt32) (n : Int) : List Task :=
  ((s.buckets b).filter (s.eligible key bitmask)).take n.toNat

def State.AllBlocked (s : State) (b : BucketID) (key : Key) (bitmask : UInt32) (n : Int) : Prop :=
  ∀ w ∈ s.selected b key bitmask n, s.Blocked w

def State.wakeAndCount (s : State) (b : BucketID) (w : Task) : State :=
  (s.wakeWaiterLocked b w).count w

section

omit sound

theorem State.wakeAndCount_other (s : State) (b : BucketID) {other : Task} (different : other ≠ w) :
    (s.wakeAndCount b w).waiters other = s.waiters other := by
  simp [wakeAndCount, count, wakeWaiterLocked, setWaiter, different]
  rfl

theorem State.wakeLoop_eq (b : BucketID) (key : Key) (bitmask : UInt32) (n : Int)
    (list : List Task) (distinct : list.Nodup) (done : Nat) (s : State) :
    let chosen := (list.filter (s.eligible key bitmask)).take (n - done).toNat
    wakeLoop b key bitmask n list done s =
      (chosen.foldl (fun s w => s.wakeAndCount b w) s, done + chosen.length) := by
  induction list generalizing done s with
  | nil => simp [wakeLoop]
  | cons head tail ih =>
    obtain ⟨fresh, distinct⟩ := nodup_cons.mp distinct
    by_cases more : (done : Int) < n
    · by_cases eligible : s.eligible key bitmask head = true
      · -- Waking the head does not change who of the tail is eligible.
        have same : tail.filter ((s.wakeAndCount b head).eligible key bitmask) =
            tail.filter (s.eligible key bitmask) := by
          apply filter_congr
          intro other member
          have different : other ≠ head := fun equal => fresh (equal ▸ member)
          simp only [State.eligible, State.wakeAndCount_other s b different]
        have count : (n - (done : Int)).toNat = (n - ((done + 1 : Nat) : Int)).toNat + 1 := by
          omega
        have turn : wakeLoop b key bitmask n (head :: tail) done s =
            wakeLoop b key bitmask n tail (done + 1) (s.wakeAndCount b head) := by
          simp only [wakeLoop, more, eligible, if_true, wakeAndCount]
        rw [turn, ih distinct, same]
        simp only [filter_cons, eligible, if_true, count, take_succ_cons,
          foldl_cons, length_cons, Prod.mk.injEq, true_and]
        omega
      · have turn : wakeLoop b key bitmask n (head :: tail) done s =
            wakeLoop b key bitmask n tail done s := by
          simp only [wakeLoop, more, eligible, if_true, Bool.false_eq_true, if_false]
        rw [turn, ih distinct]
        simp only [filter_cons, eligible, Bool.false_eq_true, if_false]
    · have none : (n - (done : Int)).toNat = 0 := by omega
      simp [wakeLoop, more, none]

theorem State.wakeLocked_eq (distinct : (s.buckets b).Nodup) (key : Key) (bitmask : UInt32) (n : Int) :
    s.wakeLocked b key bitmask n =
      ((s.selected b key bitmask n).foldl (fun s w => s.wakeAndCount b w) s,
        (s.selected b key bitmask n).length) := by
  simp only [wakeLocked, selected]
  rw [wakeLoop_eq b key bitmask n (s.buckets b) distinct 0 s]
  simp

end

theorem State.Sound.wakeAll (list : List Task) (distinct : list.Nodup)
    (queued : ∀ w ∈ list, (s.waiters w).bucket = some b) (blocked : ∀ w ∈ list, s.Blocked w) :
    (list.foldl (fun s w => s.wakeAndCount b w) s).Sound := by
  induction list generalizing s with
  | nil => exact sound
  | cons head tail ih =>
    obtain ⟨fresh, distinct⟩ := nodup_cons.mp distinct
    obtain ⟨call, sleeping⟩ := blocked head mem_cons_self
    have woken := sound.wakeWaiterLocked (queued head mem_cons_self) sleeping
    have counted : (s.wakeAndCount b head).Sound :=
      woken.count (by simp [State.wakeWaiterLocked, State.setWaiter])
    apply ih counted distinct
    · intro w member
      have different : w ≠ head := fun equal => fresh (equal ▸ member)
      rw [wakeAndCount_other s b different]
      exact queued w (mem_cons_of_mem _ member)
    · intro w member
      exact blocked w (mem_cons_of_mem _ member)

theorem State.Sound.wakeLocked {key : Key}
    (blocked : s.AllBlocked b key bitmask n) : (s.wakeLocked b key bitmask n).1.Sound := by
  rw [wakeLocked_eq (sound.placed.nodup b)]
  have inside : ∀ w ∈ s.selected b key bitmask n, w ∈ s.buckets b := fun w member =>
    (mem_filter.mp (mem_of_mem_take member)).1
  apply sound.wakeAll
  · exact ((sound.placed.nodup b).filter _).sublist (take_sublist _ _)
  · intro w member
    exact (sound.placed.mem_iff b w).mp (inside w member)
  · exact blocked

theorem State.Sound.requeueLoop (key nkey : Key) (left : Nat) (rest : List Task)
    (distinct : rest.Nodup) (queued : ∀ w ∈ rest, (s.waiters w).bucket = some b) :
    (State.requeueLoop b c key nkey left rest s).Sound := by
  induction left generalizing rest s with
  | zero => exact sound
  | succ left ih =>
    cases found : rest.dropWhile fun w => !(s.waiters w).key.matches key with
    | nil => simpa only [State.requeueLoop, found] using sound
    | cons w next =>
      have suffix : (w :: next).Sublist rest := found ▸ dropWhile_sublist _
      obtain ⟨fresh, nextDistinct⟩ := nodup_cons.mp (distinct.sublist suffix)
      have here := queued w (suffix.subset mem_cons_self)
      have moved : (s.requeueWaiter b c nkey w).Sound := sound.requeueWaiter here nkey
      have untouched : ∀ other ∈ next,
          ((s.requeueWaiter b c nkey w).waiters other).bucket = some b := by
        intro other member
        have different : other ≠ w := fun equal => fresh (equal ▸ member)
        simp only [State.requeueWaiter, State.setWaiter, Function.update_of_ne different]
        exact queued other (suffix.subset (mem_cons_of_mem _ member))
      simp only [State.requeueLoop, found]
      by_cases same : b = c
      · rw [if_pos same]
        apply ih moved
        · exact nodup_append.mpr ⟨nextDistinct, nodup_singleton w, by
            intro other member last equal
            rw [mem_singleton.mp equal]
            exact fun clash => fresh (clash ▸ member)⟩
        · intro other member
          obtain member | last := mem_append.mp member
          · exact untouched other member
          · rw [mem_singleton.mp last]
            simp [State.requeueWaiter, State.setWaiter, same]
      · rw [if_neg same]
        exact ih moved next nextDistinct untouched

theorem State.Sound.requeueLocked (key nkey : Key) (n : Int) :
    (s.requeueLocked b c key nkey n).Sound :=
  sound.requeueLoop key nkey n.toNat (s.buckets b) (sound.placed.nodup b) fun w member =>
    (sound.placed.mem_iff b w).mp member

/-! ## The calls -/

theorem State.Sound.refuse (running : s.calls task = .running)
    {waiter : Waiter} (bucket : waiter.bucket = none) (uncounted : waiter.counted = false)
    (tid : waiter.tid = 0 ∨ waiter.tid = task.tid) (unlocked : function ≠ .futexLockPI ∨ word = none) :
    ((s.setWaiter task waiter).finish task function word result).Sound := by
  apply (sound.prepare running waiter bucket tid).finish
  · simp [setWaiter, bucket]
  · constructor
    · simp [setWaiter, uncounted]
    · intro locks err failed owner
      obtain waits | none := unlocked
      · exact absurd locks waits
      · simp [none] at owner

theorem State.Sound.waitPrepare (running : s.calls task = .running)
    (waits : function ≠ .futexLockPI) (t : Target) (addr : UInt64)
    (isPrivate : Bool) (val bitmask : UInt32) (forever : Bool) :
    (s.waitPrepare task t addr isPrivate val bitmask function forever).Sound := by
  have idle := (sound.tasks task).running running
  have tid := (sound.tasks task).tid
  simp only [State.waitPrepare]
  split
  · exact sound.refuse running idle rfl tid (.inl waits)
  split
  · exact sound.refuse running idle rfl tid (.inl waits)
  split
  · exact sound.refuse running idle rfl tid (.inl waits)
  apply enqueue
  · exact sound.prepare running _ idle tid
  · simp [setWaiter, idle]
  · simp [setWaiter]
  · exact fun locks => absurd locks waits

end

variable {stores : List UInt32} {cur : UInt32}

/-- The word that `lockPILocked` leaves names a task that waits for it only if it did before. -/
theorem lockTurn_harmless {attempt : Bool} (running : s.calls task = .running) (before : s.Harmless l cur)
    (harmless : ∀ value ∈ stores, s.Harmless l value) :
    s.Harmless l (swapLoop (lockTurn task.tid attempt) stores cur).1 := by
  obtain ⟨seen, origin, ends⟩ := swapLoop_spec (lockTurn task.tid attempt) stores cur
  have seenHarmless : s.Harmless l seen := by
    obtain rfl | member := origin
    · exact before
    · exact harmless seen member
  obtain ⟨result, -, final⟩ | ⟨new, result, turned, final⟩ := ends
  · rw [final]
    exact seenHarmless
  rw [final]
  intro other call waits locks word queued
  simp only [lockTurn] at turned
  split at turned
  · cases turned
  split at turned
  · cases turned
    rw [names_acquired, decide_eq_false_iff_not]
    rintro rfl
    rw [running] at waits
    cases waits
  · split at turned
    · cases turned
    split at turned
    · cases turned
      rw [names_waiters]
      exact seenHarmless other call waits locks word queued
    · cases turned

theorem lockTurn_queued {word : UInt32}
    (loop : swapLoop (lockTurn task.tid false) stores cur = (word, .queued)) :
    names word task = false := by
  obtain ⟨seen, -, ends⟩ := swapLoop_spec (lockTurn task.tid false) stores cur
  rw [loop] at ends
  have unnamed : seen &&& FUTEX_TID_MASK ≠ task.tid → names seen task = false := by
    intro different
    simpa [names] using different
  obtain ⟨result, turned, final⟩ | ⟨new, result, turned, final⟩ := ends
  · cases final
    simp only [lockTurn] at turned
    split at turned
    · cases turned
    · next different => exact unnamed different
  cases final
  simp only [lockTurn] at turned
  split at turned
  · cases turned
  next different =>
  split at turned
  · cases turned
  simp only [Bool.false_eq_true, if_false] at turned
  split at turned
  · cases turned
    rw [names_waiters]
    exact unnamed different
  · cases turned

theorem lockTurn_refused {tid word : UInt32} :
    swapLoop (lockTurn tid false) stores cur ≠ (word, .refused) := by
  intro loop
  obtain ⟨seen, -, ends⟩ := swapLoop_spec (lockTurn tid false) stores cur
  rw [loop] at ends
  obtain ⟨result, turned, final⟩ | ⟨new, result, turned, final⟩ := ends <;>
    cases final <;>
    simp only [lockTurn, Bool.false_eq_true, if_false] at turned <;>
    repeat (first | cases turned | split at turned)

theorem State.Harmless.setWaiter (harmless : s.Harmless l value)
    (running : s.calls task = .running) (waiter : Waiter) :
    (s.setWaiter task waiter).Harmless l value := by
  intro other call waits locks word queued
  have different : other ≠ task := by
    rintro rfl
    simp only [setWaiter, running] at waits
    cases waits
  simp only [State.setWaiter, Function.update_of_ne different] at queued
  exact harmless other call waits locks word queued

variable {t : Target} {addr : UInt64}

theorem loadUint32_location
    (loaded : s.loadUint32 t addr = .ok (l, cur)) : t.location addr = some l ∧ cur = s.words l := by
  simp only [loadUint32] at loaded
  split at loaded
  · cases loaded
  · next found =>
    cases loaded
    exact ⟨found, rfl⟩

section

variable (sound : s.Sound) (running : s.calls task = .running)
include sound running

theorem State.Sound.lockWord {attempt : Bool}
    {waiter : Waiter} (loaded : (s.setWaiter task waiter).loadUint32 t addr = .ok (l, cur))
    (bucket : waiter.bucket = none) (tid : waiter.tid = task.tid)
    (harmless : ∀ l, t.location addr = some l → ∀ value ∈ stores, s.Harmless l value) :
    ((s.setWaiter task waiter).setWord l
      (swapLoop (lockTurn task.tid attempt) stores cur).1).Sound := by
  have prepared := sound.prepare running waiter bucket (.inr tid)
  obtain ⟨found, rfl⟩ := loadUint32_location loaded
  apply prepared.setWord
  have unchanged : (s.setWaiter task waiter).calls task = .running := running
  apply lockTurn_harmless unchanged (prepared.harmless l)
  intro value member
  exact (harmless l found value member).setWaiter running waiter

theorem State.Sound.lockPI
    (harmless : ∀ l, t.location addr = some l → ∀ value ∈ stores, s.Harmless l value) (isPrivate forever : Bool) :
    (s.lockPI task t addr isPrivate forever stores).Sound := by
  have idle := (sound.tasks task).running running
  simp only [State.lockPI]
  split
  · exact sound.refuse running idle rfl (sound.tasks task).tid (.inr rfl)
  split
  · exact sound.refuse running idle rfl (.inr rfl) (.inr rfl)
  next l cur loaded =>
  have locked := @lockWord _ _ _ _ _ _ _ sound running false _ loaded idle rfl harmless
  cases loop : swapLoop (lockTurn task.tid false) stores cur with
  | mk word outcome =>
    rw [loop] at locked
    cases outcome with
    | deadlock =>
      apply locked.finish
      · simp [State.setWord, State.setWaiter, idle]
      · exact ⟨by simp [State.setWord, State.setWaiter], by simp⟩
    | acquired =>
      apply locked.finish
      · simp [State.setWord, State.setWaiter, idle]
      · exact ⟨by simp, by simp⟩
    | refused => exact absurd loop lockTurn_refused
    | queued =>
      apply locked.enqueue
      · simp [State.setWord, State.setWaiter, idle]
      · simp [State.setWord, State.setWaiter]
      · intro locks
        simpa [State.setWord] using lockTurn_queued loop

theorem State.Sound.tryLockPI
    (harmless : ∀ l, t.location addr = some l → ∀ value ∈ stores, s.Harmless l value)
    (isPrivate : Bool) : (s.tryLockPI task t addr isPrivate stores).1.Sound := by
  have idle := (sound.tasks task).running running
  simp only [State.tryLockPI]
  split
  · exact sound
  · split
    · exact sound.prepare running _ idle (.inr rfl)
    · next l cur loaded => exact sound.lockWord running loaded idle rfl harmless

end

variable {err : Option BlockError}

theorem State.Sound.blockReturns (sound : s.Sound) (unwoken : err ≠ none → (s.waiters task).woken = false)
    (returned : s.blockReturns task err = some after) : after.Sound := by
  obtain ⟨silent, running, tid, ready, failed, unowned⟩ := sound.tasks task
  simp only [State.blockReturns] at returned
  split at returned
  · next call blocked =>
    have owned := unowned call (by rw [blocked]; rfl)
    -- A block that ends with no wake-up pending leaves the waiter in its bucket.
    have queued : err ≠ none → (s.waiters task).bucket ≠ none := by
      intro left absent
      have woken := ready call blocked absent
      rw [unwoken left] at woken
      cases woken
    have leave : ∀ reason, err = some reason →
        (s.setCall task (.leaving call (some reason))).Sound := by
      intro reason why
      have inside := queued (by simp [why])
      apply sound.putCall
      exact ⟨silent, nofun, tid, nofun, fun _ _ _ => inside, fun called same => by cases same; exact owned⟩
    split at returned
    · split at returned
      · next woken =>
        cases returned
        have absent : (s.waiters task).bucket = none := by
          by_contra inside
          rw [(silent inside).1] at woken
          cases woken
        apply sound.put
        · rw [Function.update_eq_self]
          exact sound.placed
        · constructor <;> simp [absent, tid]
      · cases returned
    · split at returned
      · cases returned
      · cases returned
        exact leave _ rfl
    · cases returned
      exact leave _ rfl
  · cases returned

theorem State.Sound.waitComplete (sound : s.Sound) (leaving : s.calls task = .leaving call err) :
    ((s.waitComplete task).finish task call.function (some call.word) (call.result err)).Sound := by
  obtain ⟨silent, running, tid, ready, failed, unowned⟩ := sound.tasks task
  have owned := unowned call (by rw [leaving]; rfl)
  cases found : (s.waiters task).bucket with
  | none =>
    -- The waiter was woken: its block has not failed.
    have succeeded : err = none := by
      cases err with
      | none => rfl
      | some reason => exact absurd found (failed call reason leaving)
    simp only [State.waitComplete, found]
    apply sound.finish found
    simp only [succeeded, Call.result]
    exact ⟨fun _ => rfl, nofun⟩
  | some b =>
    have inside : (s.waiters task).bucket ≠ none := by simp [found]
    simp only [State.waitComplete, found]
    have left := @put _ task _ { s.waiters task with bucket := none } sound
      (sound.placed.remove found) .running ⟨absurd rfl, fun _ => rfl, tid, nofun, nofun, nofun⟩
    have finished := @finish _ task call.function (some call.word) (call.result err) left (by simp) (by
      constructor
      · simp [(silent inside).2]
      · intro locks reason result owner
        simp [owned locks inside] at owner)
    simpa [State.finish, State.setWaiter, State.setBucket] using finished

theorem State.Sound.handOver (sound : s.Sound) (queued : (s.waiters w).bucket = some b) (blocked : s.Blocked w)
    (named : value = (s.waiters w).tid ∨ value = (s.waiters w).tid ||| FUTEX_WAITERS) :
    ((s.setWord l value).wakeWaiterLocked b w).Sound := by
  obtain ⟨call, sleeping⟩ := blocked
  have woken : ((s.wakeWaiterLocked b w).setWord l value).Sound := by
    apply (sound.wakeWaiterLocked queued sleeping).setWord
    intro other called waits locks word inside
    have different : w ≠ other := by
      rintro rfl
      simp [State.wakeWaiterLocked, State.setWaiter] at inside
    have unnamed : names (s.waiters w).tid other = false := by
      obtain zero | tid := (sound.tasks w).tid
      · rw [zero]
        exact names_zero other
      · rw [tid, names_tid]
        exact decide_eq_false different
    obtain rfl | rfl := named
    · exact unnamed
    · rw [names_waiters]
      exact unnamed
  exact woken

variable {isPrivate : Bool}

section

variable (sound : s.Sound)
include sound

theorem State.Sound.unlockPI
    {stored : Option UInt32} (harmless : ∀ l, t.location addr = some l → ∀ value ∈ stored, s.Harmless l value)
    (blocked : ∀ k, getKey t addr isPrivate = .ok k → ∀ next ∈
      ((s.buckets (t.manager.lockBucket k)).filter fun w => (s.waiters w).key.matches k).head?,
      s.Blocked next) :
    (s.unlockPI task t addr isPrivate stored).1.Sound := by
  simp only [State.unlockPI]
  split
  · exact sound
  next k key =>
  split
  · exact sound
  next l cur loaded =>
  obtain ⟨found, rfl⟩ := loadUint32_location loaded
  have raced : (s.setWord l (stored.getD (s.words l))).Sound := by
    apply sound.setWord
    cases stored with
    | none => exact sound.harmless l
    | some value => exact harmless l found value rfl
  split
  · exact sound
  split
  · split
    · exact raced
    · exact sound.setWord fun other _ _ _ _ _ => names_zero other
  next next others waiting =>
  split
  · exact raced
  have member : next ∈ (s.buckets (t.manager.lockBucket k)).filter
      fun w => (s.waiters w).key.matches k := by simp [waiting]
  have queued := (sound.placed.mem_iff _ next).mp (mem_filter.mp member).1
  apply sound.handOver queued
  · exact blocked k key next (by simp [waiting])
  · split
    · exact .inl rfl
    · exact .inr rfl

theorem State.Sound.wake
    (blocked : ∀ k, getKey t addr isPrivate = .ok k →
      s.AllBlocked (t.manager.lockBucket k) k bitmask n) :
    (s.wake t addr isPrivate bitmask n).1.Sound := by
  simp only [State.wake]
  split
  · exact sound
  · next k key => exact sound.wakeLocked (blocked k key)

theorem State.Sound.doRequeue {naddr : UInt64} {val : Option UInt32}
    {nwake nreq : Int}
    (blocked : ∀ k, getKey t addr isPrivate = .ok k →
      s.AllBlocked (t.manager.lockBucket k) k (~~~0) nwake) :
    (s.doRequeue t addr naddr isPrivate val nwake nreq).1.Sound := by
  simp only [State.doRequeue]
  split
  · exact sound
  · exact sound
  · next k1 k2 key1 key2 =>
    split
    · exact sound
    · exact (sound.wakeLocked (blocked k1 key1)).requeueLocked k1 k2 nreq

/-- What `WakeOp` needs of the timing: the word its operation leaves names no task that waits for
the word, and the waiters of each scan that is made are still blocked. -/
structure State.OpTimely (s : State) (b1 b2 : BucketID) (k1 k2 : Key) (l : Location)
    (nwake1 nwake2 : Int) (operated : UInt32 × Except Errno Bool) : Prop where
  harmless : s.Harmless l operated.1
  first : ∀ cond, operated.2 = .ok cond → (s.setWord l operated.1).AllBlocked b1 k1 (~~~0) nwake1
  second : operated.2 = .ok true →
    ((s.setWord l operated.1).wakeLocked b1 k1 (~~~0) nwake1).1.AllBlocked b2 k2 (~~~0) nwake2

theorem State.Sound.wakeOp {addr1 addr2 : UInt64} {nwake1 nwake2 : Int}
    {op : UInt32}
    (timely : ∀ k1 k2 l, getKey t addr1 isPrivate = .ok k1 → getKey t addr2 isPrivate = .ok k2 →
      t.location addr2 = some l →
      s.OpTimely (t.manager.lockBucket k1) (t.manager.lockBucket k2) k1 k2 l nwake1 nwake2
        (atomicOp op stores (s.words l))) :
    (s.wakeOp t addr1 addr2 isPrivate nwake1 nwake2 op stores).1.Sound := by
  simp only [State.wakeOp]
  split
  · exact sound
  · exact sound
  · next k1 k2 key1 key2 =>
    split
    · exact sound
    next l cur loaded =>
    obtain ⟨found, rfl⟩ := loadUint32_location loaded
    have timing := timely k1 k2 l key1 key2 found
    have written := sound.setWord timing.harmless
    split
    · exact written
    next cond operated =>
    have woken := written.wakeLocked (timing.first cond operated)
    split
    · next holds => exact woken.wakeLocked (timing.second (by rw [operated, holds]))
    · exact woken

/-! ## Runs -/

/-- The timing under which no wake-up is lost: a block ends by its timer or an interruption only
while no wake-up is pending, wakers take waiters that are still blocked, and nobody writes the
thread ID of a task into a word for which that task waits. -/
def State.Timely (s : State) : Event → Prop
  | .waitPrepare .. => True
  | .lockPI _ t addr _ _ stores =>
    ∀ l, t.location addr = some l → ∀ value ∈ stores, s.Harmless l value
  | .tryLockPI _ t addr _ stores =>
    ∀ l, t.location addr = some l → ∀ value ∈ stores, s.Harmless l value
  | .blockReturns task err => err ≠ none → (s.waiters task).woken = false
  | .waitComplete _ => True
  | .wake t addr isPrivate bitmask n =>
    ∀ k, getKey t addr isPrivate = .ok k → s.AllBlocked (t.manager.lockBucket k) k bitmask n
  | .requeue t addr _ isPrivate _ nwake _ =>
    ∀ k, getKey t addr isPrivate = .ok k → s.AllBlocked (t.manager.lockBucket k) k (~~~0) nwake
  | .wakeOp t addr1 addr2 isPrivate nwake1 nwake2 op stores =>
    ∀ k1 k2 l, getKey t addr1 isPrivate = .ok k1 → getKey t addr2 isPrivate = .ok k2 →
      t.location addr2 = some l →
      s.OpTimely (t.manager.lockBucket k1) (t.manager.lockBucket k2) k1 k2 l nwake1 nwake2
        (atomicOp op stores (s.words l))
  | .unlockPI _ t addr isPrivate stored =>
    (∀ l, t.location addr = some l → ∀ value ∈ stored, s.Harmless l value) ∧
    ∀ k, getKey t addr isPrivate = .ok k → ∀ next ∈
      ((s.buckets (t.manager.lockBucket k)).filter fun w => (s.waiters w).key.matches k).head?,
      s.Blocked next
  | .store l value => s.Harmless l value

theorem State.step_sound {event : Event}
    (timely : s.Timely event) (stepped : s.step event = some after) : after.Sound := by
  cases event with
  | waitPrepare task t addr isPrivate val bitmask function forever =>
    obtain ⟨⟨running, waits⟩, ⟨⟩⟩ := ite_none_right_eq_some.mp stepped
    exact sound.waitPrepare running waits t addr isPrivate val bitmask forever
  | lockPI task t addr isPrivate forever stores =>
    obtain ⟨running, ⟨⟩⟩ := ite_none_right_eq_some.mp stepped
    exact sound.lockPI running timely isPrivate forever
  | tryLockPI task t addr isPrivate stores =>
    obtain ⟨running, ⟨⟩⟩ := ite_none_right_eq_some.mp stepped
    exact sound.tryLockPI running timely isPrivate
  | blockReturns task err => exact sound.blockReturns timely stepped
  | waitComplete task =>
    simp only [step] at stepped
    split at stepped
    · next leaving =>
      cases stepped
      exact sound.waitComplete leaving
    · cases stepped
  | wake t addr isPrivate bitmask n =>
    cases stepped
    exact sound.wake timely
  | requeue t addr naddr isPrivate val nwake nreq =>
    cases stepped
    exact sound.doRequeue timely
  | wakeOp t addr1 addr2 isPrivate nwake1 nwake2 op stores =>
    cases stepped
    exact sound.wakeOp timely
  | unlockPI task t addr isPrivate stored =>
    obtain ⟨-, ⟨⟩⟩ := ite_none_right_eq_some.mp stepped
    exact sound.unlockPI timely.1 timely.2
  | store l value =>
    cases stepped
    exact sound.setWord timely

/-- A counted waiter that is still in its call is on its way to return success. -/
structure State.Delivers (s : State) : Prop where
  blocked : ∀ task call, s.calls task = .blocked call → (s.waiters task).counted = true →
    (s.waiters task).woken = true
  leaving : ∀ task call err, s.calls task = .leaving call err → (s.waiters task).counted = true → err = none
  returned : ∀ r ∈ s.returns, r.Right

theorem State.Sound.delivers : s.Delivers := by
  have dequeued : ∀ task, (s.waiters task).counted = true → (s.waiters task).bucket = none := by
    intro task counted
    by_contra inside
    rw [((sound.tasks task).silent inside).2] at counted
    cases counted
  constructor
  · intro task call blocked counted
    exact (sound.tasks task).ready call blocked (dequeued task counted)
  · intro task call err leaving counted
    cases err with
    | none => rfl
    | some reason => exact absurd (dequeued task counted) ((sound.tasks task).failed _ _ leaving)
  · exact sound.returned

end

/-- In every run under that timing, every waiter that is counted as woken returns success from its
futex call, and `futexLockPI` fails while the word names the caller only with `EDEADLK`. -/
theorem counted_waiters_return_success (words : Location → UInt32) (events : List Event)
    (timely : Along State.step State.Timely (State.init words) events)
    (ran : run State.step (State.init words) events = some s) : s.Delivers := by
  have sound : s.Sound := run_invariant_along State.Sound
    (fun _ _ _ sound timely stepped => State.step_sound sound timely stepped) ran timely
    (State.init_sound words)
  exact sound.delivers

def firstTask : Task :=
  ⟨1, by decide, by decide⟩

def secondTask : Task :=
  ⟨2, by decide, by decide⟩

def plainTarget : Target :=
  ⟨⟨0, 0⟩, id, fun _ => .error .EFAULT, fun addr => some addr.toNat⟩

def waitThenWake : List Event :=
  [.waitPrepare firstTask plainTarget 0 true 0 1 .futexWaitDuration false,
    .wake plainTarget 0 true 1 1, .blockReturns firstTask none, .waitComplete firstTask]

theorem waitThenWake_timely : Along step State.Timely (init fun _ => 0) waitThenWake := by
  refine ⟨trivial, ?_⟩
  rintro _ ⟨⟩
  refine ⟨?_, ?_⟩
  · rintro _ ⟨⟩ w chosen
    have only : w = firstTask := mem_singleton.mp chosen
    subst w
    exact ⟨_, rfl⟩
  · rintro _ ⟨⟩
    refine ⟨fun failed => absurd rfl failed, ?_⟩
    rintro _ ⟨⟩
    exact ⟨trivial, fun _ _ => trivial⟩

theorem woken_waiter_returns_success :
    ∃ s, run State.step (State.init fun _ => 0) waitThenWake = some s ∧
      s.returns = [⟨firstTask, .futexWaitDuration, none, true, false⟩] ∧ s.Delivers :=
  ⟨_, rfl, rfl, counted_waiters_return_success (fun _ => 0) waitThenWake waitThenWake_timely rfl⟩

/-- The timer ends the block, and a waker counts the waiter before it is removed. -/
def timeoutThenWake : List Event :=
  [.waitPrepare firstTask plainTarget 0 true 0 1 .futexWaitDuration false,
    .blockReturns firstTask (some .timedOut), .wake plainTarget 0 true 1 1,
    .waitComplete firstTask]

/-- The timer ends the block, and the owner hands the lock over before the waiter is removed. -/
def timeoutThenUnlock : List Event :=
  [.lockPI firstTask plainTarget 0 true false [], .blockReturns firstTask (some .timedOut),
    .unlockPI secondTask plainTarget 0 true none, .waitComplete firstTask]

/-- While a task waits for the lock somebody stores its thread ID, and the timer ends the block. -/
def timeoutAfterStore : List Event :=
  [.lockPI firstTask plainTarget 0 true false [], .store 0 1,
    .blockReturns firstTask (some .timedOut), .waitComplete firstTask]

/-- A counted waiter returns `ETIMEDOUT`; a task returns `ETIMEDOUT` from `futexLockPI` and owns the
lock, which was handed over or stored; a task that owns the lock gets `EDEADLK` when it asks
again. -/
theorem late_wake_ups_lost :
    (run State.step (State.init fun _ => 0) timeoutThenWake).map State.returns =
      some [⟨firstTask, .futexWaitDuration, some .ETIMEDOUT, true, false⟩] ∧
    (run State.step (State.init fun _ => 2) timeoutThenUnlock).map State.returns =
      some [⟨firstTask, .futexLockPI, some .ETIMEDOUT, false, true⟩] ∧
    (run State.step (State.init fun _ => 2) timeoutAfterStore).map State.returns =
      some [⟨firstTask, .futexLockPI, some .ETIMEDOUT, false, true⟩] ∧
    (run State.step (State.init fun _ => 1)
        [.lockPI firstTask plainTarget 0 true false []]).map State.returns =
      some [⟨firstTask, .futexLockPI, some .EDEADLK, false, true⟩] :=
  ⟨rfl, rfl, rfl, rfl⟩

end BVisor.Futex
