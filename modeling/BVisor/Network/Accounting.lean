import BVisor.Network.Process

/-! Memory accounting and completed packets over all interleavings of `Process` calls, timeouts and
evictions. -/

namespace BVisor.Network

open Option hiding map_eq_map

open Data List

variable {f next : Fragmentation} {index : Nat} {entry : Entry} {calls : List Call} {α : Type} {old : α}

/-- Memory that `r.process` has added to a reassembler and that is not in `f.memSize` yet. -/
def Outcome.memConsumed : Outcome → Nat
  | .waiting memConsumed | .ready _ _ memConsumed => memConsumed
  | .ignored | .failed _ => 0

def Call.unaccounted : Call → Int
  | .processed _ outcome => outcome.memConsumed
  | _ => 0

def Entry.held (entry : Entry) : Int :=
  if entry.listed then entry.reassembler.memSize else 0

structure Fragmentation.OK (f : Fragmentation) : Prop where
  listed : ∀ entry ∈ f.entries, entry.listed = true ↔ entry.reassembler.done = false
  distinct : ∀ (first second : Nat) (entry other : Entry), f.entries[first]? = some entry →
    f.entries[second]? = some other → entry.listed = true → other.listed = true →
    entry.id = other.id → first = second
  rList : f.rList.Nodup ∧ ∀ index : Nat, index ∈ f.rList ↔
    ∃ entry, f.entries[index]? = some entry ∧ entry.reassembler.done = false
  balance : f.memSize + (f.calls.map Call.unaccounted).sum = f.held + f.forgotten
  forgotten : 0 ≤ f.forgotten

open Fragmentation

theorem newFragmentation_ok (blockSize : Nat) (high low timeout : Int) :
    (newFragmentation blockSize high low timeout).OK where
  listed := by simp [newFragmentation]
  distinct := by simp [newFragmentation]
  rList := by simp [newFragmentation]
  balance := by simp [newFragmentation, held]
  forgotten := by simp [newFragmentation]

theorem sum_set {list : List α} (weight : α → Int) (new : α)
    (found : list[index]? = some old) :
    ((list.set index new).map weight).sum = (list.map weight).sum - weight old + weight new := by
  obtain ⟨inside, rfl⟩ := List.getElem?_eq_some_iff.mp found
  rw [map_set, sum_set', dif_pos (by rwa [length_map]), getElem_map]
  omega

theorem getElem?_set_of_found {list : List α} (new : α)
    (found : list[index]? = some old) (position : Nat) :
    (list.set index new)[position]? = if index = position then some new else list[position]? := by
  obtain ⟨inside, _⟩ := List.getElem?_eq_some_iff.mp found
  rw [List.getElem?_set]
  simp [inside]

def Entry.gone (entry : Entry) : Entry :=
  { entry.retire with listed := false }

open Entry

theorem Fragmentation.OK.release_eq (ok : f.OK) (found : f.entries[index]? = some entry)
    (running : entry.reassembler.done = false) :
    (f.entries.map (delist entry.id)).modify index retire =
      f.entries.set index entry.gone := by
  have inMap := (ok.listed entry (mem_of_getElem? found)).mpr running
  apply ext_getElem?
  intro position
  rw [List.getElem?_modify, List.getElem?_set, List.getElem?_map]
  obtain ⟨within, _⟩ := List.getElem?_eq_some_iff.mp found
  by_cases here : index = position
  · subst here
    have there : f.entries[index]? = some entry := found
    simp only [there, within, if_true, map_some, Option.map_eq_map, some.injEq]
    simp [delist, gone, retire]
  simp only [here, if_false]
  cases there : f.entries[position]? with
  | none => rfl
  | some other =>
    have unchanged : other.delist entry.id = other := by
      unfold delist
      split
      · rename_i same
        cases otherListed : other.listed with
        | false => rw [← otherListed]
        | true =>
          exact absurd (ok.distinct index position entry other found there inMap otherListed same.symm) here
      · rfl
    simp [unchanged]

/-- The packet of the reassembler has been put together, or will never be. -/
def Reassembler.Settled (reassembler : Reassembler) : Prop :=
  reassembler.done = true ∨ ¬ reassembler.filled < reassembler.holes.length

/-- What all steps under `f.mu` have in common: calls stay as they are, no reassembler is reopened,
and nothing forgotten is found again. -/
structure Onward (f next : Fragmentation) : Prop where
  calls : next.calls = f.calls
  settled : ∀ (index : Nat) (entry : Entry), f.entries[index]? = some entry →
    entry.reassembler.Settled →
    ∃ entry', next.entries[index]? = some entry' ∧ entry'.reassembler.Settled
  forgotten : f.forgotten ≤ next.forgotten

def KeepsSettled (before after : List Entry) : Prop :=
  ∀ (index : Nat) (entry : Entry), before[index]? = some entry → entry.reassembler.Settled →
    ∃ entry', after[index]? = some entry' ∧ entry'.reassembler.Settled

theorem KeepsSettled.refl (entries : List Entry) : KeepsSettled entries entries :=
  fun _ entry found settled => ⟨entry, found, settled⟩

theorem Onward.refl : Onward f f :=
  ⟨rfl, KeepsSettled.refl _, Int.le_refl _⟩

theorem Onward.trans {middle : Fragmentation} (first : Onward f middle)
    (second : Onward middle next) : Onward f next := by
  refine ⟨second.calls.trans first.calls, ?_, Int.le_trans first.forgotten second.forgotten⟩
  intro index entry found settled
  obtain ⟨entry', found', settled'⟩ := first.settled index entry found settled
  exact second.settled index entry' found' settled'

theorem Fragmentation.OK.replace {entry' : Entry} {rList : List Nat}
    {memSize forgotten : Int} (ok : f.OK) (found : f.entries[index]? = some entry) (id : entry'.id = entry.id)
    (listed : entry'.listed = true ↔ entry'.reassembler.done = false)
    (running : entry'.reassembler.done = false → entry.reassembler.done = false) (nodup : rList.Nodup)
    (members : ∀ position, position ∈ rList ↔
      position ∈ f.rList ∧ (position = index → entry'.reassembler.done = false))
    (balance : memSize + (calls.map Call.unaccounted).sum =
      ((f.entries.set index entry').map Entry.held).sum + forgotten) (known : 0 ≤ forgotten) :
    Fragmentation.OK { f with entries := f.entries.set index entry', rList, calls, memSize, forgotten } := by
  have before {position : Nat} {other : Entry} (lookup : (f.entries.set index entry')[position]? = some other) :
      ∃ old, f.entries[position]? = some old ∧ old.id = other.id ∧
        (other.listed = true → old.listed = true) := by
    rw [getElem?_set_of_found entry' found] at lookup
    split at lookup
    · rename_i same
      cases lookup
      exact ⟨entry, same ▸ found, id.symm, fun inMap =>
        (ok.listed entry (mem_of_getElem? found)).mpr (running (listed.mp inMap))⟩
    · exact ⟨other, lookup, rfl, fun inMap => inMap⟩
  refine ⟨?_, ?_, ⟨nodup, ?_⟩, balance, known⟩
  · intro other member
    rcases mem_or_eq_of_mem_set member with old | rfl
    · exact ok.listed other old
    · exact listed
  · intro first second one other oneFound otherFound oneListed otherListed same
    obtain ⟨one', oneFound', oneId, oneInMap⟩ := before oneFound
    obtain ⟨other', otherFound', otherId, otherInMap⟩ := before otherFound
    exact ok.distinct first second one' other' oneFound' otherFound' (oneInMap oneListed)
      (otherInMap otherListed) (by rw [oneId, otherId, same])
  · intro position
    simp only [members, ok.rList.2, getElem?_set_of_found entry' found]
    split
    · rename_i same
      subst same
      simp only [found, some.injEq, exists_eq_left', true_imp_iff]
      exact and_iff_right_of_imp running
    · rename_i other
      exact and_iff_left fun same => absurd same.symm other

theorem Fragmentation.OK.release (ok : f.OK) (index : Nat) :
    (f.release index).OK ∧ Onward f (f.release index) ∧
      (index ∈ f.rList → (f.release index).rList.length + 1 = f.rList.length) := by
  unfold Fragmentation.release
  cases found : f.entries[index]? with
  | none =>
    refine ⟨ok, .refl, fun member => ?_⟩
    obtain ⟨_, lookup, _⟩ := (ok.rList.2 index).mp member
    rw [found] at lookup
    cases lookup
  | some entry =>
    simp only
    cases running : entry.reassembler.done with
    | true =>
      refine ⟨ok, .refl, fun member => ?_⟩
      obtain ⟨_, lookup, notDone⟩ := (ok.rList.2 index).mp member
      rw [found] at lookup
      cases lookup
      rw [running] at notDone
      cases notDone
    | false =>
      simp only [Bool.false_eq_true, if_false]
      rw [ok.release_eq found running]
      have inMap := (ok.listed entry (mem_of_getElem? found)).mpr running
      have member : index ∈ f.rList := (ok.rList.2 index).mpr ⟨entry, found, running⟩
      refine ⟨ok.replace found rfl ?_ nofun (ok.rList.1.erase index) (fun position => ?_) ?_ ?_,
        ⟨rfl, ?_, ?_⟩, ?_⟩
      · simp [gone, retire, Reassembler.retire]
      · rw [ok.rList.1.mem_erase_iff]
        exact ⟨fun ⟨other, known⟩ => ⟨known, fun same => absurd same other⟩,
          fun ⟨known, running⟩ => ⟨fun same => (nomatch running same), known⟩⟩
      · have balance := ok.balance
        have change := sum_set Entry.held entry.gone found
        have goneHeld : entry.gone.held = 0 := rfl
        have wasHeld : entry.held = entry.reassembler.memSize := by
          simp [Entry.held, inMap]
        rw [goneHeld, wasHeld] at change
        rw [change]
        change f.memSize + _ = (f.entries.map Entry.held).sum + f.forgotten at balance
        split <;> omega
      · have := ok.forgotten
        split <;> omega
      · intro position other some settled
        simp only [getElem?_set_of_found entry.gone found]
        split
        · exact ⟨entry.gone, rfl, .inl rfl⟩
        · exact ⟨other, some, settled⟩
      · simp only
        split <;> omega
      · intro _
        have := length_erase_of_mem member
        have := length_pos_of_mem member
        omega

theorem Fragmentation.OK.expireLoop (ok : f.OK) (now : Int) (fuel : Nat) :
    (f.expireLoop now fuel).OK ∧ Onward f (f.expireLoop now fuel) := by
  induction fuel generalizing f with
  | zero => exact ⟨ok, .refl⟩
  | succ fuel ih =>
    unfold expireLoop
    split
    · exact ⟨ok, .refl⟩
    rename_i index _
    split
    · exact ⟨ok, .refl⟩
    split
    · exact ⟨ok, .refl⟩
    · obtain ⟨released, onward, _⟩ := ok.release index
      obtain ⟨kept, further⟩ := ih released
      exact ⟨kept, onward.trans further⟩

/-- The eviction has enough turns: it stops below the limit or with no reassembler left. -/
theorem Fragmentation.OK.evictLoop (ok : f.OK) (fuel : Nat) :
    (f.evictLoop fuel).OK ∧ Onward f (f.evictLoop fuel) ∧
      (f.rList.length ≤ fuel → (f.evictLoop fuel).memSize ≤ (f.evictLoop fuel).lowLimit ∨
          (f.evictLoop fuel).rList = []) := by
  induction fuel generalizing f with
  | zero => exact ⟨ok, .refl, fun none => .inr (length_eq_zero_iff.mp (Nat.le_zero.mp none))⟩
  | succ fuel ih =>
    unfold evictLoop
    split
    · split
      · rename_i empty
        exact ⟨ok, .refl, fun _ => .inr (List.getLast?_eq_none_iff.mp empty)⟩
      rename_i index last
      obtain ⟨released, onward, shorter⟩ := ok.release index
      obtain ⟨kept, further, enough⟩ := ih released
      have length := shorter (mem_of_getLast? last)
      exact ⟨kept, onward.trans further, fun turns => enough (by omega)⟩
    · rename_i below
      exact ⟨ok, .refl, fun _ => .inl (Int.not_lt.mp below)⟩

theorem Fragmentation.OK.evict (ok : f.OK) : f.evict.OK ∧ Onward f f.evict := by
  unfold Fragmentation.evict
  split
  · exact ⟨(ok.evictLoop _).1, (ok.evictLoop _).2.1⟩
  · exact ⟨ok, .refl⟩

theorem Fragmentation.OK.releases (ok : f.OK) (order : List Nat) :
    (order.foldl Fragmentation.release f).OK ∧
      Onward f (order.foldl Fragmentation.release f) := by
  induction order generalizing f with
  | nil => exact ⟨ok, .refl⟩
  | cons index rest ih =>
    obtain ⟨released, onward, _⟩ := ok.release index
    obtain ⟨kept, further⟩ := ih released
    exact ⟨kept, onward.trans further⟩

theorem Reassembler.finish_kept (reassembler : Reassembler) (memConsumed : Nat) :
    (reassembler.finish memConsumed).1.memSize = reassembler.memSize ∧
      (reassembler.finish memConsumed).1.done = reassembler.done ∧
      (reassembler.finish memConsumed).2.memConsumed = memConsumed ∧
      ((reassembler.finish memConsumed).2 ≠ .waiting memConsumed →
        (reassembler.finish memConsumed).1.Settled) := by
  unfold Reassembler.finish
  split
  · exact ⟨rfl, rfl, rfl, fun waits => absurd rfl waits⟩
  rename_i full
  refine ⟨rfl, rfl, rfl, fun _ => .inr ?_⟩
  have same : ∀ holes : List Hole, (emptyMerged (sortHoles holes)).length = holes.length := by
    intro holes
    have sorted : (sortHoles holes).length = holes.length := (perm_insertionSort _ holes).length_eq
    cases merged : sortHoles holes with
    | nil => simpa [merged, emptyMerged] using sorted
    | cons hole rest => simpa [merged, emptyMerged] using sorted
  simpa only [same] using full

theorem Reassembler.process_kept (reassembler : Reassembler) (fragment : Fragment) :
    (reassembler.process fragment).1.memSize =
        reassembler.memSize + (reassembler.process fragment).2.memConsumed ∧
      (reassembler.process fragment).1.done = reassembler.done ∧
      (reassembler.done = true → (reassembler.process fragment).2 = .ignored) ∧
      (∀ data proto memConsumed, (reassembler.process fragment).2 = .ready data proto memConsumed →
          (reassembler.process fragment).1.Settled) := by
  unfold Reassembler.process
  split
  · rename_i done
    exact ⟨rfl, rfl, fun _ => rfl, nofun⟩
  rename_i running
  have goesOn : ∀ outcome, reassembler.done = true → outcome = Outcome.ignored :=
    fun _ done => absurd done running
  split
  · exact ⟨rfl, rfl, goesOn _, nofun⟩
  · exact ⟨rfl, rfl, goesOn _, nofun⟩
  · obtain ⟨memSize, done, consumed, settled⟩ := reassembler.finish_kept 0
    exact ⟨by rw [memSize, consumed, Nat.add_zero], done, goesOn _,
      fun _ _ _ ready => settled (by rw [ready]; nofun)⟩
  · rename_i index _
    split
    · exact ⟨rfl, rfl, goesOn _, nofun⟩
    rename_i hole _
    obtain ⟨memSize, done, consumed, settled⟩ :=
      (reassembler.fill index hole fragment).finish_kept fragment.memSize
    exact ⟨by rw [memSize, consumed]; rfl, done, goesOn _, fun _ _ _ ready => settled (by rw [ready]; nofun)⟩

variable {call : Nat} {outcome : Outcome}

theorem Fragmentation.OK.returns {memSize : Int} (ok : f.OK)
    (called : f.calls[call]? = some (.processed index outcome)) (result : Result)
    (accounted : memSize = f.memSize + outcome.memConsumed) :
    Fragmentation.OK { f with calls := f.calls.set call (.returned index result), memSize } := by
  refine ⟨ok.listed, ok.distinct, ok.rList, ?_, ok.forgotten⟩
  have balance := ok.balance
  have change := sum_set Call.unaccounted (.returned index result) called
  simp only [Call.unaccounted] at change
  simp only [held] at balance ⊢
  rw [change]
  omega

variable {fragment : Fragment} {reassembler : Reassembler}

theorem Fragmentation.OK.consume (ok : f.OK)
    (called : f.calls[call]? = some (.looked index fragment))
    (found : f.entries[index]? = some entry)
    (memSize : reassembler.memSize = entry.reassembler.memSize + outcome.memConsumed)
    (done : reassembler.done = entry.reassembler.done)
    (ignored : entry.reassembler.done = true → outcome = .ignored) :
    Fragmentation.OK { f with
      entries := f.entries.set index { entry with reassembler }
      calls := f.calls.set call (.processed index outcome) } := by
  have member := mem_of_getElem? found
  refine ok.replace found rfl ?_ (fun running => done.symm.trans running) ok.rList.1 (fun position => ?_) ?_
    ok.forgotten
  · show entry.listed = true ↔ reassembler.done = false
    rw [done]
    exact ok.listed entry member
  · refine (and_iff_left_of_imp fun listed same => ?_).symm
    obtain ⟨other, lookup, running⟩ := (ok.rList.2 position).mp listed
    rw [same, found] at lookup
    cases lookup
    exact done.trans running
  · have balance := ok.balance
    have callChange := sum_set Call.unaccounted (.processed index outcome) called
    have entryChange := sum_set Entry.held { entry with reassembler } found
    have consumes : ({ entry with reassembler } : Entry).held =
        entry.held + outcome.memConsumed := by
      have inMap := ok.listed entry member
      simp only [Entry.held]
      cases running : entry.reassembler.done with
      | true =>
        have notListed : entry.listed = false := by simpa [running] using inMap
        simp [notListed, ignored running, Outcome.memConsumed]
      | false =>
        have listed : entry.listed = true := by simpa [running] using inMap
        simp [listed, memSize]
    have waits : (Call.looked index fragment).unaccounted = 0 := rfl
    have unaccounted : (Call.processed index outcome).unaccounted = outcome.memConsumed := rfl
    change f.memSize + _ = (f.entries.map Entry.held).sum + f.forgotten at balance
    rw [callChange, entryChange, consumes, waits, unaccounted]
    omega

structure Processes (f : Fragmentation) (call : Nat) (next : Fragmentation) (index : Nat)
    (fragment : Fragment) (entry : Entry) : Prop where
  called : f.calls[call]? = some (.looked index fragment)
  found : f.entries[index]? = some entry
  calls : next.calls = f.calls.set call (.processed index (entry.reassembler.process fragment).2)
  entries : next.entries = f.entries.set index
    { entry with reassembler := (entry.reassembler.process fragment).1 }

theorem Fragmentation.OK.process (ok : f.OK) (stepped : f.process call = some next) :
    next.OK ∧ next.forgotten = f.forgotten ∧
      ∃ index fragment entry, Processes f call next index fragment entry := by
  unfold Fragmentation.process at stepped
  split at stepped
  · rename_i index fragment called
    split at stepped
    · cases stepped
    rename_i entry found
    simp only [some.injEq] at stepped
    subst stepped
    obtain ⟨memSize, done, ignored, _⟩ := entry.reassembler.process_kept fragment
    exact ⟨ok.consume called found memSize done ignored, rfl, index, fragment, entry, called, found, rfl, rfl⟩
  · cases stepped

structure Accounts (f : Fragmentation) (call : Nat) (next : Fragmentation) (index : Nat)
    (outcome : Outcome) (result : Result) : Prop where
  called : f.calls[call]? = some (.processed index outcome)
  calls : next.calls = f.calls.set call (.returned index result)
  ready : result = .ready → ∃ data proto memConsumed, outcome = .ready data proto memConsumed

theorem Fragmentation.OK.account (ok : f.OK) (stepped : f.account call = some next) :
    next.OK ∧ f.forgotten ≤ next.forgotten ∧ KeepsSettled f.entries next.entries ∧
      ∃ index outcome result, Accounts f call next index outcome result := by
  unfold Fragmentation.account at stepped
  split at stepped
  · rename_i index outcome called
    cases outcome with
    | failed error =>
      cases stepped
      have ok' := ok.returns called .failed (Int.add_zero f.memSize).symm
      obtain ⟨released, onward, _⟩ := ok'.release index
      exact ⟨released, onward.forgotten, onward.settled, index, _, .failed, called, onward.calls, nofun⟩
    | ignored =>
      cases stepped
      have ok' := ok.returns called .notReady (Int.add_zero f.memSize).symm
      obtain ⟨evicted, onward⟩ := ok'.evict
      exact ⟨evicted, onward.forgotten, onward.settled, index, _, .notReady, called, onward.calls, nofun⟩
    | waiting memConsumed =>
      cases stepped
      obtain ⟨evicted, onward⟩ := (ok.returns called .notReady rfl).evict
      exact ⟨evicted, onward.forgotten, onward.settled, index, _, .notReady, called, onward.calls, nofun⟩
    | ready data proto memConsumed =>
      cases stepped
      obtain ⟨released, onward, _⟩ := (ok.returns called .ready rfl).release index
      obtain ⟨evicted, further⟩ := released.evict
      have both := onward.trans further
      exact ⟨evicted, both.forgotten, both.settled, index, _, .ready, called, both.calls,
        fun _ => ⟨data, proto, memConsumed, rfl⟩⟩
  · cases stepped

theorem sum_call (call : Call) (calls : List Call) (none : call.unaccounted = 0) :
    ((calls ++ [call]).map Call.unaccounted).sum = (calls.map Call.unaccounted).sum := by
  simp [none]

theorem getElem?_new {entries : List Entry} {new : Entry} (found : (entries ++ [new])[index]? = some entry) :
    entries[index]? = some entry ∨ index = entries.length ∧ entry = new := by
  rw [List.getElem?_append] at found
  split at found
  · exact .inl found
  obtain ⟨within, same⟩ := List.getElem?_eq_some_iff.mp found
  simp only [length_singleton, Nat.lt_one_iff] at within
  refine .inr ⟨by omega, ?_⟩
  simpa [within] using same.symm

theorem Fragmentation.OK.add (ok : f.OK) (id : FragmentID) (createdAt : Int)
    (fragment : Fragment) (unused : ∀ entry ∈ f.entries, entry.listed = true → entry.id ≠ id) :
    Fragmentation.OK { f with
      entries := f.entries ++ [.new id createdAt]
      rList := f.entries.length :: f.rList
      calls := f.calls ++ [.looked f.entries.length fragment] } := by
  have fresh : f.entries.length ∉ f.rList := by
    intro member
    obtain ⟨_, found, _⟩ := (ok.rList.2 _).mp member
    have := (List.getElem?_eq_some_iff.mp found).1
    omega
  refine ⟨?_, ?_, ⟨nodup_cons.mpr ⟨fresh, ok.rList.1⟩, ?_⟩, ?_, ok.forgotten⟩
  · intro entry member
    rcases mem_append.mp member with old | new
    · exact ok.listed entry old
    · rw [mem_singleton.mp new]
      exact ⟨fun _ => rfl, fun _ => rfl⟩
  · intro first second one other oneFound otherFound oneListed otherListed same
    rcases getElem?_new oneFound with oneOld | ⟨oneAt, rfl⟩
    · rcases getElem?_new otherFound with otherOld | ⟨otherAt, rfl⟩
      · exact ok.distinct first second one other oneOld otherOld oneListed otherListed same
      · exact absurd same (unused one (mem_of_getElem? oneOld) oneListed)
    · rcases getElem?_new otherFound with otherOld | ⟨otherAt, rfl⟩
      · exact absurd same.symm (unused other (mem_of_getElem? otherOld) otherListed)
      · rw [oneAt, otherAt]
  · intro position
    rw [mem_cons, ok.rList.2]
    constructor
    · rintro (rfl | ⟨entry, found, running⟩)
      · exact ⟨_, List.getElem?_concat_length, rfl⟩
      · have within := (List.getElem?_eq_some_iff.mp found).1
        exact ⟨entry, (List.getElem?_append_left within).trans found, running⟩
    · rintro ⟨entry, found, running⟩
      rcases getElem?_new found with old | ⟨new, _⟩
      · exact .inr ⟨entry, old, running⟩
      · exact .inl new
  · have empty : ((f.entries ++ [Entry.new id createdAt]).map Entry.held).sum =
        (f.entries.map Entry.held).sum := by
      simp [Entry.held, Entry.new, newReassembler]
    have calls := sum_call (.looked f.entries.length fragment) f.calls rfl
    have balance := ok.balance
    change f.memSize + _ = (f.entries.map Entry.held).sum + f.forgotten at balance
    show f.memSize +
        ((f.calls ++ [Call.looked f.entries.length fragment]).map Call.unaccounted).sum =
      ((f.entries ++ [Entry.new id createdAt]).map Entry.held).sum + f.forgotten
    rw [calls, empty]
    exact balance

theorem Fragmentation.OK.called (ok : f.OK) {call : Call} (none : call.unaccounted = 0) :
    Fragmentation.OK { f with calls := f.calls ++ [call] } :=
  ⟨ok.listed, ok.distinct, ok.rList,
    (congrArg (f.memSize + ·) (sum_call call f.calls none)).trans ok.balance, ok.forgotten⟩

theorem Fragmentation.OK.lookup (ok : f.OK) (id : FragmentID) (fragment : Fragment) (createdAt now : Int) :
    (f.lookup id fragment createdAt now).OK ∧
      f.forgotten ≤ (f.lookup id fragment createdAt now).forgotten ∧
      KeepsSettled f.entries (f.lookup id fragment createdAt now).entries ∧
      ∃ call, (f.lookup id fragment createdAt now).calls = f.calls ++ [call] ∧
        (call = .refused ∨ ∃ index, call = .looked index fragment) := by
  unfold Fragmentation.lookup
  split
  · exact ⟨ok.called rfl, Int.le_refl _, .refl _, .refused, rfl, .inl rfl⟩
  split
  · rename_i index _
    exact ⟨ok.called rfl, Int.le_refl _, .refl _, .looked index fragment, rfl, .inr ⟨index, rfl⟩⟩
  rename_i unknown
  have added := ok.add id createdAt fragment (by
    intro entry member listed same
    have := List.findIdx?_eq_none_iff.mp unknown entry member
    simp [listed, same] at this)
  have kept : KeepsSettled f.entries (f.entries ++ [.new id createdAt]) := by
    intro index entry found settled
    have within := (List.getElem?_eq_some_iff.mp found).1
    exact ⟨entry, (List.getElem?_append_left within).trans found, settled⟩
  simp only
  split
  · obtain ⟨expired, onward⟩ := added.expireLoop now _
    refine ⟨expired, onward.forgotten, ?_, _, onward.calls, .inr ⟨_, rfl⟩⟩
    intro index entry found settled
    obtain ⟨entry', found', settled'⟩ := kept index entry found settled
    exact onward.settled index entry' found' settled'
  · exact ⟨added, Int.le_refl _, kept, _, rfl, .inr ⟨_, rfl⟩⟩

variable {event : Event}

theorem Fragmentation.step_ok (ok : f.OK) (stepped : f.step event = some next) : next.OK := by
  cases event with
  | lookup id fragment createdAt now =>
    cases stepped
    exact (ok.lookup id fragment createdAt now).1
  | process call => exact (ok.process stepped).1
  | account call => exact (ok.account stepped).1
  | expire now =>
    cases stepped
    exact (ok.expireLoop now f.rList.length).1
  | releaseAll order =>
    simp only [step, releaseAll] at stepped
    split at stepped
    · cases stepped
      obtain ⟨kept, _⟩ := ok.releases order
      exact ⟨kept.listed, kept.distinct, kept.rList, kept.balance, kept.forgotten⟩
    · cases stepped

def Fragmentation.Quiescent (f : Fragmentation) : Prop :=
  ∀ call ∈ f.calls, call.inFlight = false

theorem Fragmentation.OK.quiescent_balance (ok : f.OK) (quiescent : f.Quiescent) :
    f.memSize = f.held + f.forgotten := by
  have none : ∀ calls : List Call, (∀ call ∈ calls, call.inFlight = false) →
      (calls.map Call.unaccounted).sum = 0 := by
    intro calls
    induction calls with
    | nil => exact fun _ => rfl
    | cons call rest ih =>
      intro finished
      have rests := ih (forall_mem_cons.mp finished).2
      have ended := finished call mem_cons_self
      rw [map_cons, sum_cons, rests]
      cases call with
      | looked _ _ | processed _ _ => cases ended
      | refused | returned _ _ => rfl
  have balance := ok.balance
  have unaccounted := none f.calls quiescent
  omega

/-- The calls that have a packet of a reassembler, returned or about to be. -/
def Call.readyFor (index : Nat) : Call → Bool
  | .processed entry (.ready _ _ _) => entry = index
  | .returned entry .ready => entry = index
  | _ => false

def Outcome.isFailed : Outcome → Bool
  | .failed _ => true
  | _ => false

/-- A call is about to process a fragment, without an error, in a reassembler that is complete and
has not been released yet. -/
def Fragmentation.reprocesses (f : Fragmentation) : Event → Bool
  | .process call =>
    match f.calls[call]? with
    | some (.looked index fragment) =>
      match f.entries[index]? with
      | some entry =>
        !entry.reassembler.done &&
          !decide (entry.reassembler.filled < entry.reassembler.holes.length) &&
          !(entry.reassembler.process fragment).2.isFailed
      | none => false
    | _ => false
  | _ => false

/-- A release forgets memory exactly if `f.memSize` is below what it takes off. -/
theorem Fragmentation.release_forgotten (f : Fragmentation) (index : Nat) :
    f.forgotten ≤ (f.release index).forgotten ∧
      ((f.release index).forgotten = f.forgotten ↔
        ∀ entry, f.entries[index]? = some entry → entry.reassembler.done = false →
          entry.reassembler.memSize ≤ f.memSize) := by
  cases found : f.entries[index]? with
  | none => simp [release, found]
  | some entry =>
    cases done : entry.reassembler.done with
    | true => simp [release, found, done]
    | false =>
      simp only [release, found, done, Bool.false_eq_true, if_false, Option.some.injEq, forall_eq']
      split <;> simp <;> omega

/-- The steps that neither set a negative `memSize` to 0 nor process a fragment again in a complete
reassembler. -/
def Fragmentation.orderlyStep (f : Fragmentation) (event : Event) : Option Fragmentation :=
  match f.step event with
  | some next =>
    if next.forgotten = f.forgotten ∧ f.reprocesses event = false then some next else none
  | none => none

theorem Fragmentation.orderlyStep_some (stepped : f.orderlyStep event = some next) :
    f.step event = some next ∧ next.forgotten = f.forgotten ∧ f.reprocesses event = false := by
  unfold orderlyStep at stepped
  split at stepped
  · rename_i after acted
    split at stepped
    · rename_i orderly
      cases stepped
      exact ⟨acted, orderly⟩
    · cases stepped
  · cases stepped

/-- At most one call has the packet of a reassembler, which is then settled. -/
def Fragmentation.Once (f : Fragmentation) : Prop :=
  ∀ index : Nat, f.calls.countP (Call.readyFor index) ≤ 1 ∧
    (f.calls.countP (Call.readyFor index) ≠ 0 →
      ∃ entry, f.entries[index]? = some entry ∧ entry.reassembler.Settled)

theorem Fragmentation.Once.onward (once : f.Once)
    (calls : ∀ index, next.calls.countP (Call.readyFor index) ≤
      f.calls.countP (Call.readyFor index))
    (settled : KeepsSettled f.entries next.entries) : next.Once := by
  intro index
  obtain ⟨most, known⟩ := once index
  have fewer := calls index
  refine ⟨by omega, fun some => ?_⟩
  obtain ⟨entry, found, isSettled⟩ := known (by omega)
  exact settled index entry found isSettled

theorem countP_set_le {old new : Call} (test : Call → Bool)
    (found : calls[call]? = some old) (implies : test new = true → test old = true) :
    (calls.set call new).countP test ≤ calls.countP test := by
  obtain ⟨within, same⟩ := List.getElem?_eq_some_iff.mp found
  rw [countP_set within, same]
  have positive : test old = true → 0 < calls.countP test := fun passes =>
    countP_pos_iff.mpr ⟨old, mem_of_getElem? found, passes⟩
  cases passes : test new with
  | true =>
    have some := positive (implies passes)
    simp only [implies passes, if_true]
    omega
  | false => simp

theorem Reassembler.process_failed (failed : (reassembler.process fragment).2.isFailed = true) :
    (reassembler.process fragment).1 = reassembler := by
  unfold Reassembler.process at failed ⊢
  have finishes : ∀ (reassembler : Reassembler) (memConsumed : Nat),
      (reassembler.finish memConsumed).2.isFailed = false := by
    intro reassembler memConsumed
    unfold Reassembler.finish
    split <;> rfl
  split at failed
  · rename_i done
    rw [if_pos done]
  rename_i running
  rw [if_neg running]
  split at failed
  · rfl
  · rfl
  · rw [finishes] at failed
    cases failed
  · split at failed
    · rfl
    · rw [finishes] at failed
      cases failed

theorem Fragmentation.Once.process
    (once : f.Once) (processes : Processes f call next index fragment entry)
    (orderly : f.reprocesses (.process call) = false) : next.Once := by
  obtain ⟨called, found, calls, entries⟩ := processes
  obtain ⟨_, done, ignored, ready⟩ := entry.reassembler.process_kept fragment
  have lookup (position : Nat) := (congrArg (·[position]?) entries).trans (getElem?_set_of_found _ found position)
  -- a settled reassembler is done, or complete and then the fragment is refused
  have settles : entry.reassembler.Settled →
      (entry.reassembler.process fragment).1.Settled ∧
        ∀ data proto memConsumed, (entry.reassembler.process fragment).2 ≠ .ready data proto memConsumed := by
    rintro (isDone | full)
    · refine ⟨.inl (done.trans isDone), fun _ _ _ => ?_⟩
      rw [ignored isDone]
      nofun
    · cases running : entry.reassembler.done with
      | true =>
        refine ⟨.inl (done.trans running), fun _ _ _ => ?_⟩
        rw [ignored running]
        nofun
      | false =>
        have failed : (entry.reassembler.process fragment).2.isFailed = true := by
          simpa [reprocesses, called, found, running, full] using orderly
        rw [Reassembler.process_failed failed]
        refine ⟨.inr full, fun _ _ _ same => ?_⟩
        rw [same] at failed
        cases failed
  intro position
  obtain ⟨most, known⟩ := once position
  by_cases isReady : Call.readyFor position (.processed index (entry.reassembler.process fragment).2) = true
  · obtain ⟨here, data, proto, memConsumed, packet⟩ : index = position ∧
        ∃ data proto memConsumed, (entry.reassembler.process fragment).2 = .ready data proto memConsumed := by
      cases outcome : (entry.reassembler.process fragment).2 with
      | ready data proto memConsumed =>
        rw [outcome] at isReady
        exact ⟨by simpa [Call.readyFor] using isReady, data, proto, memConsumed, rfl⟩
      | _ =>
        rw [outcome] at isReady
        cases isReady
    subst here
    have none : f.calls.countP (Call.readyFor index) = 0 := by
      refine Classical.byContradiction fun some => ?_
      obtain ⟨other, otherFound, settled⟩ := known some
      rw [found] at otherFound
      cases otherFound
      exact (settles settled).2 data proto memConsumed packet
    obtain ⟨inCalls, same⟩ := List.getElem?_eq_some_iff.mp called
    refine ⟨?_, fun _ => ⟨_, by rw [lookup, if_pos rfl], ready data proto memConsumed packet⟩⟩
    rw [calls, countP_set inCalls, same, none]
    simp [isReady]
  · have fewer : next.calls.countP (Call.readyFor position) ≤
        f.calls.countP (Call.readyFor position) := by
      rw [calls]
      exact countP_set_le _ called fun passes => absurd passes isReady
    refine ⟨by omega, fun some => ?_⟩
    obtain ⟨other, otherFound, settled⟩ := known (by omega)
    rw [lookup]
    split
    · rename_i here
      subst here
      rw [found] at otherFound
      cases otherFound
      exact ⟨_, rfl, (settles settled).1⟩
    · exact ⟨other, otherFound, settled⟩

theorem Fragmentation.orderlyStep_once (ok : f.OK) (once : f.Once)
    (stepped : f.orderlyStep event = some next) : next.Once := by
  obtain ⟨acted, _, orderly⟩ := orderlyStep_some stepped
  cases event with
  | lookup id fragment createdAt now =>
    cases acted
    obtain ⟨_, _, settled, call, calls, idle⟩ := ok.lookup id fragment createdAt now
    refine once.onward (fun index => ?_) settled
    rw [calls, countP_append]
    rcases idle with rfl | ⟨_, rfl⟩ <;> simp [Call.readyFor]
  | process call =>
    obtain ⟨_, _, index, fragment, entry, processes⟩ := ok.process acted
    exact once.process processes orderly
  | account call =>
    obtain ⟨_, _, settled, index, outcome, result, called, calls, ready⟩ := ok.account acted
    refine once.onward (fun position => ?_) settled
    rw [calls]
    refine countP_set_le _ called fun passes => ?_
    cases result with
    | ready =>
      obtain ⟨data, proto, memConsumed, rfl⟩ := ready rfl
      exact passes
    | _ => cases passes
  | expire now =>
    cases acted
    obtain ⟨_, onward⟩ := ok.expireLoop now f.rList.length
    exact once.onward (fun _ => by rw [releaseReassemblersLocked, onward.calls])
      onward.settled
  | releaseAll order =>
    simp only [step, releaseAll] at acted
    split at acted
    · cases acted
      obtain ⟨_, onward⟩ := ok.releases order
      exact once.onward (fun _ => by simp only [onward.calls]; exact Nat.le_refl _)
        onward.settled
    · cases acted

instance (f : Fragmentation) : Decidable f.Quiescent :=
  inferInstanceAs (Decidable (∀ call ∈ f.calls, call.inFlight = false))

/-- In every run whose steps are orderly, `f.memSize` is the memory of the reassemblers in the map
whenever no call is in flight, and at most one call returns the packet of a reassembler. In any run,
`f.memSize` exceeds that memory by what has been forgotten, which grows exactly with the releases of
a reassembler for which `f.memSize` is too small at that moment. -/
theorem fragmentation_accounting (blockSize : Nat) (high low timeout : Int) (f : Fragmentation) :
    (Reaches Fragmentation.orderlyStep (newFragmentation blockSize high low timeout) f →
      (f.Quiescent → f.memSize = f.held) ∧ ∀ index, f.readyCount index ≤ 1) ∧
    (Reaches Fragmentation.step (newFragmentation blockSize high low timeout) f →
      f.Quiescent → (f.memSize = f.held ↔ f.forgotten = 0)) ∧
    ∀ index, f.forgotten ≤ (f.release index).forgotten ∧
      ((f.release index).forgotten = f.forgotten ↔
        ∀ entry, f.entries[index]? = some entry → entry.reassembler.done = false →
          entry.reassembler.memSize ≤ f.memSize) := by
  refine ⟨?_, ?_, f.release_forgotten⟩
  · intro reaches
    obtain ⟨ok, nothing, once⟩ := reaches.invariant
      (fun f => f.OK ∧ f.forgotten = 0 ∧ f.Once)
      (by
        intro f event next ⟨ok, nothing, once⟩ stepped
        obtain ⟨acted, same, _⟩ := Fragmentation.orderlyStep_some stepped
        exact ⟨Fragmentation.step_ok ok acted, same.trans nothing,
          Fragmentation.orderlyStep_once ok once stepped⟩)
      ⟨newFragmentation_ok blockSize high low timeout, rfl, fun _ => ⟨Nat.zero_le _, fun some => absurd rfl some⟩⟩
    refine ⟨fun quiescent => ?_, fun index => ?_⟩
    · have balance := ok.quiescent_balance quiescent
      omega
    · refine Nat.le_trans ?_ (once index).1
      rw [Fragmentation.readyCount, count_eq_countP]
      refine countP_mono_left fun call _ same => ?_
      rw [eq_of_beq same]
      simp [Call.readyFor]
  · intro reaches quiescent
    have ok : f.OK := reaches.invariant Fragmentation.OK
      (fun _ _ _ kept stepped => Fragmentation.step_ok kept stepped)
      (newFragmentation_ok blockSize high low timeout)
    have balance := ok.quiescent_balance quiescent
    omega

def packetID : FragmentID :=
  { source := [10, 0, 0, 1], destination := [10, 0, 0, 2], id := 7, protocol := 17 }

def headFragment : Fragment :=
  { first := 0, last := 7, more := true, proto := 17, data := List.replicate 8 1, memSize := 300 }

def tailFragment : Fragment :=
  { first := 8, last := 9, more := false, proto := 17, data := [2, 2], memSize := 200 }

def emptyFragmentation : Fragmentation :=
  newFragmentation 8 (4 * 2 ^ 20) (3 * 2 ^ 20) 30

/-- The state after both fragments, with what the calls returned. -/
def packetReturned (calls : List Call) (memSize : Int) : Fragmentation :=
  { emptyFragmentation with
    entries :=
      [{ id := packetID
         createdAt := 0
         listed := false
         reassembler := { memSize := 500, proto := 17, holes := [], filled := 2, done := true } }]
    memSize
    calls
    forgotten := memSize }

theorem fragmentation_accounting_inOrder :
    (packetReturned [.returned 0 .notReady, .returned 0 .ready] 0).memSize =
      (packetReturned [.returned 0 .notReady, .returned 0 .ready] 0).held :=
  ((fragmentation_accounting 8 (4 * 2 ^ 20) (3 * 2 ^ 20) 30
    (packetReturned [.returned 0 .notReady, .returned 0 .ready] 0)).1
      ⟨[.lookup packetID headFragment 0 0, .process 0, .account 0,
        .lookup packetID tailFragment 0 0, .process 1, .account 1], by decide⟩).1 (by decide)

/-- The call that completes the packet is accounted before the one that started it: releasing the
reassembler takes off what has not been added yet, and adding it afterwards is never undone. -/
def overtaking : List Event :=
  [.lookup packetID headFragment 0 0, .lookup packetID tailFragment 0 0, .process 0, .process 1,
    .account 1, .account 0]

/-- Two calls with copies of the last fragment, both processed before the first of them releases
the reassembler. -/
def copying : List Event :=
  [.lookup packetID headFragment 0 0, .process 0, .account 0, .lookup packetID tailFragment 0 0,
    .lookup packetID tailFragment 0 0, .process 1, .process 2, .account 1, .account 2]

theorem overtaken_and_copied :
    (∃ f, run Fragmentation.step emptyFragmentation overtaking = some f ∧ f.Quiescent ∧
      f.memSize = 300 ∧ f.held = 0) ∧
    ∃ f, run Fragmentation.step emptyFragmentation copying = some f ∧ f.Quiescent ∧
      f.readyCount 0 = 2 :=
  ⟨⟨packetReturned [.returned 0 .notReady, .returned 0 .ready] 300, by decide, by decide, rfl,
      by decide⟩,
    ⟨packetReturned [.returned 0 .notReady, .returned 0 .ready, .returned 0 .ready] 0, by decide,
      by decide, by decide⟩⟩

end BVisor.Network
