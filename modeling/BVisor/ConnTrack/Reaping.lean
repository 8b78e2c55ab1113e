import BVisor.ConnTrack.Consistency

/-! Reaping takes tuples out only with their connections, and in the end all of them. -/

namespace BVisor.ConnTrack

open List

variable {A τ θ : Type} {env : Env A τ θ}

open Table

section Reaping

variable {ct : Table A τ} {cn : Conn A τ} {ref : TupleRef} {idx : Nat}

theorem Consistent.here (consistent : Consistent env ct) (found : ct.conns ref.conn = some cn)
    (other : Nat) (member : ref ∈ ct.buckets other) : other = env.bucket (cn.tupleID ref.reply) :=
  (consistent.placed other ref member cn found).symm

def TupleRef.other (ref : TupleRef) : TupleRef := ⟨ref.conn, !ref.reply⟩

theorem TupleRef.self_or_other (ref : TupleRef) (reply : Bool) :
    (⟨ref.conn, reply⟩ : TupleRef) = ref ∨ (⟨ref.conn, reply⟩ : TupleRef) = ref.other := by
  obtain ⟨conn, side⟩ := ref
  cases reply <;> cases side <;> simp [TupleRef.other]

section

variable (consistent : Consistent env ct) (found : ct.conns ref.conn = some cn)
  (placed : env.bucket (cn.tupleID ref.reply) = idx) (b : Nat)
include consistent found placed b

theorem Consistent.remove_one : (ct.remove idx ref).buckets b = (ct.buckets b).erase ref :=
  remove_buckets (fun other inside => (consistent.here found other inside).trans placed) b

theorem Consistent.remove_both :
    ((ct.remove idx ref).remove (env.bucket (cn.tupleID (!ref.reply))) ref.other).buckets b =
      ((ct.buckets b).erase ref).erase ref.other := by
  have first := consistent.remove_one found placed
  rw [remove_buckets (fun other inside => ?_) b, first]
  rw [first] at inside
  exact @Consistent.here A τ θ env ct cn ref.other consistent found other (mem_of_mem_erase inside)

end

variable {ct' : Table A τ}

namespace Table

theorem Shrinks.erase_one (same : ct'.conns = ct.conns)
    (created : ct'.created = ct.created) (now : ct'.now = ct.now)
    (erased : ∀ b, ct'.buckets b = (ct.buckets b).erase ref)
    (found : ct.conns ref.conn = some cn) (dead : cn.timedOut env ct.now = true)
    (unfinished : cn.finalizeResult ≠ some .success) : ct.Shrinks env ct' := by
  refine ⟨same, created, now, fun b => erased b ▸ erase_sublist, fun b other member => ?_⟩
  rw [erased]
  by_cases removed : other = ref
  · subst removed
    exact .inr ⟨cn, found, dead, fun success => absurd success unfinished⟩
  · exact .inl ((mem_erase_of_ne removed).mpr member)

theorem Shrinks.erase_both (nodup : ∀ b, (ct.buckets b).Nodup)
    (same : ct'.conns = ct.conns) (created : ct'.created = ct.created) (now : ct'.now = ct.now)
    (erased : ∀ b, ct'.buckets b = ((ct.buckets b).erase ref).erase ref.other)
    (found : ct.conns ref.conn = some cn) (dead : cn.timedOut env ct.now = true) :
    ct.Shrinks env ct' := by
  have absent : ∀ reply, ¬ ct'.Holds ⟨ref.conn, reply⟩ := by
    intro reply held
    obtain ⟨b, member⟩ := held
    rw [erased, ((nodup b).erase ref).mem_erase_iff, (nodup b).mem_erase_iff] at member
    rcases ref.self_or_other reply with itself | other
    · exact member.2.1 itself
    · exact member.1 other
  refine ⟨same, created, now, fun b => ?_, fun b other member => ?_⟩
  · rw [erased]
    exact erase_sublist.trans erase_sublist
  · by_cases removed : other.conn = ref.conn
    · exact .inr ⟨cn, removed ▸ found, dead, fun _ => removed ▸ absent⟩
    have ne : other ≠ ref := fun equal => removed (congrArg TupleRef.conn equal)
    have ne' : other ≠ ref.other := fun equal => removed (equal ▸ rfl)
    rw [erased]
    exact .inl ((mem_erase_of_ne ne').mpr ((mem_erase_of_ne ne).mpr member))

theorem reapTupleLocked_shrinks (consistent : Consistent env ct)
    (placed : ∀ cn, ct.conns ref.conn = some cn → env.bucket (cn.tupleID ref.reply) = idx) :
    ct.Shrinks env (ct.reapTupleLocked env ref idx).1 := by
  cases found : ct.conns ref.conn with
  | none =>
    simp only [reapTupleLocked, found]
    exact .refl
  | some cn =>
    simp only [reapTupleLocked, found]
    split
    · exact .refl
    next lives =>
    have dead : cn.timedOut env ct.now = true := by simpa using lives
    split
    · exact .refl
    split
    · exact .erase_both consistent.nodup rfl rfl rfl
        (consistent.remove_both found (placed cn found)) found dead
    · next unfinished =>
      exact .erase_one rfl rfl rfl (consistent.remove_one found (placed cn found)) found dead unfinished

/-- Every tuple of the list belongs in the bucket, wherever it is now. -/
def Listed (env : Env A τ θ) (ct : Table A τ) (idx : Nat) (refs : List TupleRef) : Prop :=
  ∀ ref ∈ refs, ∀ cn, ct.conns ref.conn = some cn → env.bucket (cn.tupleID ref.reply) = idx

theorem Listed.shrink {refs kept : List TupleRef}
    (listed : ct.Listed env idx refs) (shrinks : ct.Shrinks env ct') (subset : kept ⊆ refs) :
    ct'.Listed env idx kept := by
  intro other member
  rw [shrinks.conns]
  exact listed other (subset member)

theorem reapBucket_shrinks (remaining : List TupleRef) (seen : Examined)
    (consistent : Consistent env ct) (listed : ct.Listed env idx remaining) :
    ct.Shrinks env (ct.reapBucket env idx remaining seen).1 := by
  fun_induction reapBucket env ct idx remaining seen with
  | case1 => exact .refl
  | case2 ct seen ref reaped =>
    exact reapTupleLocked_shrinks consistent (listed ref (by simp))
  | case3 ct seen ref reaped seen' next later inside ih =>
    have first : ct.Shrinks env reaped.1 := reapTupleLocked_shrinks consistent (listed ref (by simp))
    have rest := listed.shrink first (subset_cons_self ref (next :: later))
    exact first.trans (ih (consistent.shrink first) (rest.shrink .refl (filter_subset_self _)))
  | case4 ct seen ref reaped seen' next later outside again =>
    have first : ct.Shrinks env reaped.1 := reapTupleLocked_shrinks consistent (listed ref (by simp))
    have second : reaped.1.Shrinks env again.1 := by
      refine reapTupleLocked_shrinks (consistent.shrink first) ?_
      rw [first.conns]
      exact listed next (by simp)
    exact first.trans second

theorem reapBucket_rest (rest : List TupleRef) (seen : Examined)
    (consistent : Consistent env ct) (listed : ct.Listed env idx (ref :: rest)) :
    (ct.reapTupleLocked env ref idx).1.Shrinks env (ct.reapBucket env idx (ref :: rest) seen).1 := by
  have first : ct.Shrinks env (ct.reapTupleLocked env ref idx).1 :=
    reapTupleLocked_shrinks consistent (listed ref (by simp))
  have between := consistent.shrink first
  have later := listed.shrink first (subset_cons_self ref rest)
  cases rest with
  | nil =>
    rw [reapBucket]
    exact .refl
  | cons next rest =>
    rw [reapBucket]
    split
    · exact reapBucket_shrinks _ _ between (later.shrink .refl (filter_subset_self _))
    · exact reapTupleLocked_shrinks between (later next (by simp))

end Table

theorem Consistent.listed (consistent : Consistent env ct) : ct.Listed env idx (ct.buckets idx) :=
  consistent.placed idx

namespace Table

theorem reapBuckets_shrinks (start count : Nat) (consistent : Consistent env ct) :
    ct.Shrinks env (ct.reapBuckets env start count).1 := by
  induction count with
  | zero => exact .refl
  | succ count ih =>
    have between := consistent.shrink ih
    exact ih.trans (reapBucket_shrinks _ _ between between.listed)

theorem reapBuckets_idle (start count : Nat) (empty : ∀ k < count, ct.buckets ((k + start) % numBuckets) = []) :
    (ct.reapBuckets env start count).1 = ct := by
  induction count with
  | zero => rfl
  | succ count ih =>
    have before := ih fun k below => empty k (Nat.lt_succ_of_lt below)
    simp only [reapBuckets, before, empty count (Nat.lt_succ_self _)]
    rw [reapBucket]

theorem reapBuckets_last (start count : Nat) (empty : ∀ k < count, ct.buckets ((k + start) % numBuckets) = [])
    (last : ct.buckets ((count + start) % numBuckets) = [ref]) :
    (ct.reapBuckets env start (count + 1)).1 = (ct.reapTupleLocked env ref ((count + start) % numBuckets)).1 := by
  simp only [reapBuckets, reapBuckets_idle start count empty, last]
  rw [reapBucket]

theorem reapUnused_table (start prevInterval : Nat) :
    (ct.reapUnused env start prevInterval).1 =
      (ct.reapBuckets env start (numBuckets / fractionPerReaping)).1 := by
  simp only [reapUnused, apply_ite Prod.fst, ite_self]

theorem reapUnused_last {start : Nat} (prevInterval : Nat)
    (empty : ∀ k < 127, ct.buckets ((k + start) % numBuckets) = [])
    (last : ct.buckets ((127 + start) % numBuckets) = [ref]) :
    (ct.reapUnused env start prevInterval).1 = (ct.reapTupleLocked env ref ((127 + start) % numBuckets)).1 := by
  rw [reapUnused_table]
  exact reapBuckets_last start 127 empty last

theorem reapUnused_shrinks (start prevInterval : Nat) (consistent : Consistent env ct) :
    ct.Shrinks env (ct.reapUnused env start prevInterval).1 := by
  rw [reapUnused_table]
  exact reapBuckets_shrinks start _ consistent

end Table

end Reaping

/-! Emptying the table. -/

def Table.reapRepeatedly (env : Env A τ θ) : List Nat → Table A τ → Nat → Nat → Table A τ
  | [], ct, _, _ => ct
  | wait :: waits, ct, start, prevInterval =>
    let reaped := { ct with now := ct.now + wait }.reapUnused env start prevInterval
    reaped.1.reapRepeatedly env waits reaped.2.1 reaped.2.2

structure Expired (env : Env A τ θ) (ct : Table A τ) : Prop where
  consistent : Consistent env ct
  dead : ∀ i cn, ct.conns i = some cn → cn.timedOut env ct.now = true

/-- Tuples were only taken out between the two tables; and some were, if the first bucket with a
tuple was swept. -/
structure Reaped (env : Env A τ θ) (ct ct' : Table A τ) (swept : Nat → Prop) : Prop where
  expired : Expired env ct'
  sublist : ∀ b, (ct'.buckets b).Sublist (ct.buckets b)
  progress : ∀ idx, swept idx → (∀ b < idx, ct.buckets b = []) → ct.buckets idx ≠ [] → ct'.buckets ≠ ct.buckets

section Emptying

variable {ct ct' middle after : Table A τ} {swept swept' : Nat → Prop}

theorem Expired.shrink (expired : Expired env ct) (shrinks : ct.Shrinks env ct') : Expired env ct' := by
  refine ⟨expired.consistent.shrink shrinks, ?_⟩
  rw [shrinks.conns, shrinks.now]
  exact expired.dead

theorem Expired.advance (expired : Expired env ct) (wait : Nat) :
    Expired env { ct with now := ct.now + wait } := by
  refine ⟨expired.consistent.advance wait, fun i cn found => ?_⟩
  by_contra lives
  have before := Conn.timedOut_mono (Nat.le_add_right ct.now wait) (Bool.eq_false_iff.mpr lives)
  rw [expired.dead i cn found] at before
  cases before

theorem Reaped.trans (first : Reaped env ct middle swept) (second : Reaped env middle after swept') :
    Reaped env ct after fun idx => swept idx ∨ swept' idx := by
  refine ⟨second.expired, fun b => (second.sublist b).trans (first.sublist b), ?_⟩
  intro idx visited below held unchanged
  have between : middle.buckets = ct.buckets := funext fun b =>
    (first.sublist b).antisymm (unchanged ▸ second.sublist b)
  rcases visited with visited | visited
  · exact first.progress idx visited below held between
  · rw [← between] at below held unchanged
    exact second.progress idx visited below held unchanged

theorem Reaped.mono (reaped : Reaped env ct ct' swept) (fewer : ∀ idx, swept' idx → swept idx) :
    Reaped env ct ct' swept' :=
  ⟨reaped.expired, reaped.sublist, fun idx visited => reaped.progress idx (fewer idx visited)⟩

theorem Reaped.wait (expired : Expired env ct) (wait : Nat) :
    Reaped env ct { ct with now := ct.now + wait } fun _ => False :=
  ⟨expired.advance wait, fun _ => List.Sublist.refl _, fun _ visited => visited.elim⟩

variable {idx : Nat} {waits : List Nat} {ref : TupleRef}

theorem Consistent.other_held (consistent : Consistent env ct) {cn : Conn A τ}
    (found : ct.conns ref.conn = some cn) (member : ref ∈ ct.buckets idx)
    (success : cn.finalizeResult = some .success)
    (differ : cn.tupleID (!ref.reply) ≠ cn.tupleID ref.reply) : ct.Holds ref.other := by
  obtain ⟨conn, reply⟩ := ref
  cases reply with
  | false => exact (consistent.paired conn cn found success differ.symm).mp ⟨idx, member⟩
  | true => exact (consistent.paired conn cn found success differ).mpr ⟨idx, member⟩

namespace Table

/-- The first tuple of the first bucket that has one is reaped: if it had to wait for the other
tuple of its connection, that one would be in an earlier bucket. -/
theorem reapTupleLocked_first (expired : Expired env ct)
    (below : ∀ b < idx, ct.buckets b = []) (member : ref ∈ ct.buckets idx) :
    ref ∉ (ct.reapTupleLocked env ref idx).1.buckets idx := by
  have consistent := expired.consistent
  obtain ⟨cn, found⟩ := consistent.known idx ref member
  have placed := consistent.placed idx ref member cn found
  have dead := expired.dead ref.conn cn found
  simp only [reapTupleLocked, found, dead, Bool.not_true, Bool.false_eq_true, if_false]
  split
  · next waits =>
    obtain ⟨b, inside⟩ := Consistent.other_held consistent found member waits.2 fun same =>
      Nat.ne_of_gt waits.1 (by rw [same, placed])
    have earlier := consistent.placed b ref.other inside cn found
    rw [below b (earlier ▸ waits.1)] at inside
    cases inside
  · split
    · intro inside
      have inside := consistent.remove_both found placed idx ▸ inside
      exact (consistent.nodup idx).not_mem_erase (mem_of_mem_erase inside)
    · intro inside
      exact (consistent.nodup idx).not_mem_erase (consistent.remove_one found placed idx ▸ inside)

theorem reapBucket_first (expired : Expired env ct) (seen : Examined)
    (below : ∀ b < idx, ct.buckets b = []) (held : ct.buckets idx ≠ []) :
    (ct.reapBucket env idx (ct.buckets idx) seen).1.buckets ≠ ct.buckets := by
  obtain ⟨ref, rest, list⟩ := exists_cons_of_ne_nil held
  have member : ref ∈ ct.buckets idx := list ▸ mem_cons_self
  have listed : ct.Listed env idx (ref :: rest) := list ▸ expired.consistent.listed
  have later := reapBucket_rest rest seen expired.consistent listed
  intro unchanged
  rw [list] at unchanged
  have stays : ref ∈ (ct.reapBucket env idx (ref :: rest) seen).1.buckets idx := by
    rw [unchanged]
    exact member
  exact reapTupleLocked_first expired below member ((later.sublist idx).subset stays)

theorem reapBucket_reaped (expired : Expired env ct) (idx : Nat) (seen : Examined) :
    Reaped env ct (ct.reapBucket env idx (ct.buckets idx) seen).1 (· = idx) := by
  have shrinks := reapBucket_shrinks (ct.buckets idx) seen expired.consistent expired.consistent.listed
  refine ⟨expired.shrink shrinks, shrinks.sublist, ?_⟩
  intro _ visited below held
  subst visited
  exact reapBucket_first expired seen below held

theorem reapBuckets_reaped (start count : Nat) (expired : Expired env ct) :
    Reaped env ct (ct.reapBuckets env start count).1
      fun idx => ∃ k < count, idx = (k + start) % numBuckets := by
  induction count with
  | zero => exact ⟨expired, fun _ => List.Sublist.refl _, fun _ ⟨_, below, _⟩ => nomatch below⟩
  | succ count ih =>
    refine (ih.trans (reapBucket_reaped ih.expired _ _)).mono fun idx visited => ?_
    obtain ⟨k, below, here⟩ := visited
    rcases Nat.lt_succ_iff_lt_or_eq.mp below with below | rfl
    · exact .inl ⟨k, below, here⟩
    · exact .inr here

theorem reapUnused_next (start prevInterval : Nat) :
    (ct.reapUnused env start prevInterval).2.1 =
      (numBuckets / fractionPerReaping - 1 + start) % numBuckets + 1 := by
  simp only [reapUnused, apply_ite Prod.snd, apply_ite Prod.fst, ite_self]

theorem reapRepeatedly_reaped (waits : List Nat) (start prevInterval : Nat) (expired : Expired env ct) :
    Reaped env ct (ct.reapRepeatedly env waits start prevInterval)
      fun idx => ∃ k < 128 * waits.length, idx = (k + start) % numBuckets := by
  induction waits generalizing ct start prevInterval with
  | nil => exact ⟨expired, fun _ => List.Sublist.refl _, fun _ ⟨_, below, _⟩ => nomatch below⟩
  | cons wait waits ih =>
    let later : Table A τ := { ct with now := ct.now + wait }
    have first : Reaped env later (later.reapUnused env start prevInterval).1
        fun idx => ∃ k < 128, idx = (k + start) % numBuckets := by
      rw [reapUnused_table]
      exact reapBuckets_reaped start 128 (expired.advance wait)
    have rest := ih (later.reapUnused env start prevInterval).2.1
      (later.reapUnused env start prevInterval).2.2 first.expired
    refine ((Reaped.wait expired wait).trans (first.trans rest)).mono fun idx visited => ?_
    obtain ⟨k, below, here⟩ := visited
    rw [length_cons] at below
    by_cases early : k < 128
    · exact .inr (.inl ⟨k, early, here⟩)
    refine .inr (.inr ⟨k - 128, by omega, here.trans ?_⟩)
    rw [reapUnused_next]
    simp only [numBuckets, fractionPerReaping]
    omega

def load (ct : Table A τ) : Nat := ∑ b ∈ Finset.range numBuckets, (ct.buckets b).length

end Table

theorem Consistent.outside (consistent : Consistent env ct) {b : Nat} (beyond : numBuckets ≤ b) :
    ct.buckets b = [] := by
  refine eq_nil_iff_forall_not_mem.mpr fun ref member => ?_
  obtain ⟨cn, found⟩ := consistent.known b ref member
  have placed := consistent.placed b ref member cn found
  have within : env.bucket (cn.tupleID ref.reply) < numBuckets := Nat.mod_lt _ (by decide)
  omega

theorem Table.load_lt (consistent : Consistent env ct)
    (sublist : ∀ b, (ct'.buckets b).Sublist (ct.buckets b)) (changed : ct'.buckets ≠ ct.buckets) :
    ct'.load < ct.load := by
  obtain ⟨b, differ⟩ := Function.ne_iff.mp changed
  have within : b < numBuckets := by
    by_contra beyond
    have none := consistent.outside (Nat.not_lt.mp beyond)
    have none' := sublist b
    rw [none] at none' differ
    exact differ (sublist_nil.mp none')
  refine Finset.sum_lt_sum (fun other _ => (sublist other).length_le) ⟨b, by simpa using within, ?_⟩
  refine Nat.lt_of_le_of_ne (sublist b).length_le fun same => ?_
  exact differ ((sublist b).eq_of_length same)

/-- A full turn of the reaper over a table with a tuple takes one out. -/
theorem Table.reapRepeatedly_turn (start prevInterval : Nat)
    (turn : waits.length = 128) (expired : Expired env ct) :
    (∀ b, ct.buckets b = []) ∨ (ct.reapRepeatedly env waits start prevInterval).load < ct.load := by
  by_cases empty : ∀ b, ct.buckets b = []
  · exact .inl empty
  have some : ∃ b, ct.buckets b ≠ [] := not_forall.mp empty
  have reaped := reapRepeatedly_reaped waits start prevInterval expired
  let first := Nat.find some
  have held : ct.buckets first ≠ [] := Nat.find_spec some
  have below : ∀ b < first, ct.buckets b = [] := fun b less => not_not.mp (Nat.find_min some less)
  have within : first < numBuckets := by
    by_contra beyond
    exact held (expired.consistent.outside (Nat.not_lt.mp beyond))
  have visited : ∃ k < 128 * waits.length, first = (k + start) % numBuckets := by
    rw [turn]
    simp only [numBuckets] at within ⊢
    exact ⟨(first + 2 ^ 14 - start % 2 ^ 14) % 2 ^ 14, by omega, by omega⟩
  exact .inr (load_lt expired.consistent reaped.sublist (reaped.progress first visited below held))

theorem Table.reapRepeatedly_append (first second : List Nat) (start prevInterval : Nat) :
    ∃ start' prevInterval', ct.reapRepeatedly env (first ++ second) start prevInterval =
      (ct.reapRepeatedly env first start prevInterval).reapRepeatedly env second start'
        prevInterval' := by
  induction first generalizing ct start prevInterval with
  | nil => exact ⟨start, prevInterval, rfl⟩
  | cons wait first ih => exact ih _ _

theorem Table.reapRepeatedly_empties (rounds : Nat) (start prevInterval : Nat)
    (expired : Expired env ct) (load : ct.load ≤ rounds) (enough : 128 * rounds ≤ waits.length)
    (b : Nat) : (ct.reapRepeatedly env waits start prevInterval).buckets b = [] := by
  induction rounds generalizing ct waits start prevInterval with
  | zero =>
    have none : (ct.buckets b).length = 0 := by
      by_cases within : b < numBuckets
      · exact Finset.sum_eq_zero_iff.mp (Nat.le_zero.mp load) b (by simpa using within)
      · rw [expired.consistent.outside (Nat.not_lt.mp within)]
        rfl
    have reaped := reapRepeatedly_reaped waits start prevInterval expired
    exact eq_nil_of_length_eq_zero (Nat.le_zero.mp (none ▸ (reaped.sublist b).length_le))
  | succ rounds ih =>
    obtain ⟨start', prevInterval', append⟩ := @reapRepeatedly_append A τ θ env ct
      (waits.take 128) (waits.drop 128) start prevInterval
    have turned := reapRepeatedly_reaped (waits.take 128) start prevInterval expired
    rw [take_append_drop] at append
    rcases reapRepeatedly_turn start prevInterval
        (length_take_of_le (by omega : 128 ≤ waits.length)) expired with empty | less
    · have reaped := reapRepeatedly_reaped waits start prevInterval expired
      exact sublist_nil.mp (empty b ▸ reaped.sublist b)
    · rw [append]
      exact ih start' prevInterval' turned.expired (by omega) (by rw [length_drop]; omega)

theorem Consistent.expired (consistent : Consistent env ct) {duration : Nat}
    (long : establishedTimeout < duration) :
    Expired env { ct with now := ct.now + duration } := by
  refine ⟨consistent.advance duration, fun i cn found => ?_⟩
  have past := consistent.past i cn found
  have shorter : unestablishedTimeout < establishedTimeout := by decide
  simp only [Conn.timedOut]
  split <;> simp only [decide_eq_true_eq] <;> omega

end Emptying

end BVisor.ConnTrack
