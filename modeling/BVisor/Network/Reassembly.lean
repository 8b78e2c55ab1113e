import BVisor.Network.Holes

/-! A reassembler that is given any fragments: what it accepts, and that it refuses fragments that
clash with accepted ones. -/

namespace BVisor.Network

open Data List

variable {fragment : Fragment} {hole gap : Hole} {holes : List Hole} {index top : Nat}

structure Reassembler.Sound (reassembler : Reassembler) (top : Nat) (given : List Fragment) :
    Prop where
  running : reassembler.done = false
  laid : Laid reassembler.holes top
  filled : reassembler.filled = reassembler.holes.countP Hole.filled
  given : ∀ fragment ∈ given, ∃ hole ∈ reassembler.holes, hole.Repeats fragment

def Incomplete (holes : List Hole) : Prop :=
  ∃ hole ∈ holes, hole.filled = false

variable {reassembler : Reassembler} {given : List Fragment} {accepted : Fragment}

theorem newReassembler_sound : newReassembler.Sound maxUint16 [] where
  running := rfl
  laid := by
    refine ⟨⟨_, .refl _, rfl, Nat.zero_le _, rfl⟩, ?_, ?_⟩
    · simp [newReassembler]
    · simp [newReassembler]
  filled := rfl
  given := nofun

theorem Hole.fill_repeats (accepts : gap.Accepts fragment) :
    (gap.fill fragment).Repeats fragment := by
  refine ⟨rfl, rfl, rfl, fun isFinal => ?_⟩
  simp only [Hole.fill, isFinal, Bool.false_eq_true, and_false, if_false]
  exact accepts.2.2 isFinal

namespace Reassembler

section

variable (sound : reassembler.Sound top given)
include sound

theorem Sound.fill (found : reassembler.holes[index]? = some gap) (proper : fragment.first ≤ fragment.last)
    (accepts : gap.Accepts fragment) :
    (reassembler.fill index gap fragment).Sound (topAfter fragment top) (given ++ [fragment]) where
  running := sound.running
  laid := sound.laid.fill found proper accepts
  filled := by
    show reassembler.filled + 1 = (filling reassembler.holes index gap fragment).countP Hole.filled
    rw [filling_countP sound.laid found accepts.1, sound.filled]
  given := by
    intro other member
    rcases mem_append.mp member with old | new
    · obtain ⟨hole, inside, repeats⟩ := sound.given other old
      refine ⟨hole, (mem_filling found sound.laid).mpr (.inl ⟨inside, ?_⟩), repeats⟩
      rintro rfl
      have filled := repeats.1
      rw [accepts.1] at filled
      cases filled
    · rw [mem_singleton.mp new]
      exact ⟨_, (mem_filling found sound.laid).mpr (.inr (.inr (.inl rfl))), Hole.fill_repeats accepts⟩

theorem Sound.repeated (repeated : ∃ hole ∈ reassembler.holes, hole.Repeats fragment) :
    reassembler.Sound top (given ++ [fragment]) where
  running := sound.running
  laid := sound.laid
  filled := sound.filled
  given := by
    intro other member
    rcases mem_append.mp member with old | new
    · exact sound.given other old
    · rw [mem_singleton.mp new]
      exact repeated

omit sound in
theorem process_cases (running : reassembler.done = false) (fragment : Fragment) :
    (∃ error, reassembler.process fragment = (reassembler, .failed error)) ∧
        ((∃ hole ∈ reassembler.holes, hole.Touches fragment ∧ ¬ hole.Repeats fragment ∧
            ¬ hole.Accepts fragment) ∨
          ∀ hole ∈ reassembler.holes, ¬ hole.Touches fragment) ∨
      reassembler.process fragment = reassembler.finish 0 ∧
        (∃ hole ∈ reassembler.holes, hole.Repeats fragment) ∧
        (∀ hole ∈ reassembler.holes, hole.Touches fragment → hole.Repeats fragment) ∨
      ∃ index gap, reassembler.holes[index]? = some gap ∧ gap.Accepts fragment ∧
        reassembler.process fragment = (reassembler.fill index gap fragment).finish fragment.memSize := by
  have finds := scan_finds fragment reassembler.holes 0 false
  unfold process
  rw [running]
  generalize scan fragment reassembler.holes 0 false = result at finds
  match result with
  | .error error => exact .inl ⟨⟨error, rfl⟩, .inl finds⟩
  | .ok .nothing => exact .inl ⟨⟨.conflict, rfl⟩, .inr finds.2⟩
  | .ok .duplicate =>
    obtain ⟨seen, same⟩ := finds
    exact .inr (.inl ⟨rfl, seen.resolve_left nofun, same⟩)
  | .ok (.gap position) =>
    obtain ⟨_, gap, lookup, accepts⟩ := finds
    rw [Nat.sub_zero] at lookup
    refine .inr (.inr ⟨position, gap, lookup, accepts, ?_⟩)
    simp [lookup]

theorem Sound.finish_waiting (incomplete : Incomplete reassembler.holes) (memConsumed : Nat) :
    reassembler.finish memConsumed = (reassembler, .waiting memConsumed) := by
  obtain ⟨hole, member, missing⟩ := incomplete
  have fewer : reassembler.filled < reassembler.holes.length := by
    rw [sound.filled]
    refine Nat.lt_of_le_of_ne countP_le_length fun all => ?_
    have := countP_eq_length.mp all hole member
    rw [missing] at this
    cases this
  rw [finish, if_pos fewer]

theorem Sound.finish_ready (complete : ¬ Incomplete reassembler.holes) (memConsumed : Nat) :
    (reassembler.finish memConsumed).2 = .ready ((sortHoles reassembler.holes).flatMap Hole.data)
      reassembler.proto memConsumed := by
  have all : ¬ reassembler.filled < reassembler.holes.length := by
    rw [sound.filled, countP_eq_length.mpr]
    · exact Nat.lt_irrefl _
    · intro hole member
      cases filled : hole.filled with
      | true => rfl
      | false => exact absurd ⟨hole, member, filled⟩ complete
  rw [finish, if_neg all]

end

theorem Sound.deliver_finish {after : Reassembler} {memConsumed : Nat} (sound : after.Sound top given)
    (processed : reassembler.process fragment = after.finish memConsumed) :
    Incomplete after.holes ∧ reassembler.deliver fragment = (after, .waiting memConsumed) ∨
      ¬ Incomplete after.holes ∧ (reassembler.deliver fragment).1.done = true ∧
        (reassembler.deliver fragment).2 =
          .ready ((sortHoles after.holes).flatMap Hole.data) after.proto memConsumed := by
  unfold deliver
  rw [processed]
  by_cases incomplete : Incomplete after.holes
  · rw [sound.finish_waiting incomplete]
    exact .inl ⟨incomplete, rfl⟩
  have ready := sound.finish_ready incomplete memConsumed
  generalize after.finish memConsumed = result at ready
  obtain ⟨finished, outcome⟩ := result
  cases ready
  exact .inr ⟨incomplete, rfl, rfl⟩

theorem deliver_failed {error : FragmentError}
    (processed : reassembler.process fragment = (reassembler, .failed error)) :
    reassembler.deliver fragment = (reassembler.retire, .failed error) := by
  unfold deliver
  rw [processed]

/-- The states between two calls of `Process`: done, or sound and incomplete. -/
def Open (reassembler : Reassembler) (given : List Fragment) : Prop :=
  reassembler.done = true ∨
    ∃ top, reassembler.Sound top given ∧ Incomplete reassembler.holes

theorem deliver_done (done : reassembler.done = true) (fragment : Fragment) :
    reassembler.deliver fragment = (reassembler, .ignored) := by
  simp [deliver, process, done]

theorem deliverAll_done (done : reassembler.done = true) (later : List Fragment) :
    reassembler.deliverAll later = reassembler := by
  induction later with
  | nil => rfl
  | cons fragment rest ih =>
    rw [deliverAll, deliver_done done]
    exact ih

theorem Open.deliver (isOpen : reassembler.Open given) (proper : fragment.first ≤ fragment.last) :
    (reassembler.deliver fragment).1.Open (given ++ [fragment]) := by
  rcases isOpen with done | ⟨top, sound, incomplete⟩
  · rw [deliver_done done]
    exact .inl done
  rcases process_cases sound.running fragment with
    ⟨⟨error, failed⟩, _⟩ | ⟨processed, repeated, _⟩ | ⟨index, gap, found, accepts, processed⟩
  · rw [deliver_failed failed]
    exact .inl rfl
  · rcases sound.deliver_finish processed with ⟨_, delivered⟩ | ⟨complete, _⟩
    · rw [delivered]
      exact .inr ⟨top, sound.repeated repeated, incomplete⟩
    · exact absurd incomplete complete
  · have filled := sound.fill found proper accepts
    rcases filled.deliver_finish processed with ⟨still, delivered⟩ | ⟨_, done, _⟩
    · rw [delivered]
      exact .inr ⟨_, filled, still⟩
    · exact .inl done

theorem Open.deliverAll {later : List Fragment} (isOpen : reassembler.Open given)
    (proper : ∀ fragment ∈ later, fragment.first ≤ fragment.last) :
    (reassembler.deliverAll later).Open (given ++ later) := by
  induction later generalizing reassembler given with
  | nil =>
    rw [append_nil]
    exact isOpen
  | cons fragment rest ih =>
    have first := isOpen.deliver (proper fragment mem_cons_self)
    have all := ih first (forall_mem_cons.mp proper).2
    rw [append_assoc, singleton_append] at all
    exact all

end Reassembler

theorem newReassembler_open : newReassembler.Open [] :=
  .inr ⟨maxUint16, newReassembler_sound, _, mem_singleton_self _, rfl⟩

/-- A fragment that cannot belong to a packet of which `accepted` is a part: the two overlap without
being equal, or one of them ends the packet where the other does not allow it. -/
def Clashes (fragment accepted : Fragment) : Prop :=
  (accepted.first ≤ fragment.last ∧ fragment.first ≤ accepted.last ∧
      (fragment.first ≠ accepted.first ∨ fragment.last ≠ accepted.last)) ∨
    (accepted.more = false ∧
      (accepted.last < fragment.last ∨ fragment.more = false ∧ fragment.last ≠ accepted.last)) ∨
    (fragment.more = false ∧ fragment.last < accepted.first)

instance (fragment accepted : Fragment) : Decidable (Clashes fragment accepted) :=
  inferInstanceAs (Decidable (_ ∨ _))

theorem Laid.clash_refused {part : Hole} (laid : Laid holes top)
    (proper : fragment.first ≤ fragment.last) (member : part ∈ holes)
    (repeats : part.Repeats accepted) (clashes : Clashes fragment accepted)
    (inside : hole ∈ holes) : ¬ hole.Repeats fragment ∧ ¬ hole.Accepts fragment := by
  obtain ⟨filled, first, last, final⟩ := repeats
  have partBounds := laid.bounds member
  have holeBounds := laid.bounds inside
  have holeFinal := laid.final hole inside
  have partFinal := laid.final part member
  have shared : ∀ point, hole.first ≤ point → point ≤ hole.last → part.first ≤ point →
      point ≤ part.last → hole = part := fun point low high low' high' =>
    laid.unique point inside member ⟨low, high⟩ ⟨low', high'⟩
  constructor
  · rintro ⟨_, first', last', final'⟩
    rcases clashes with ⟨low, high, differs⟩ | ⟨isFinal, beyond | ⟨isFinal', elsewhere⟩⟩ | ⟨isFinal', early⟩
    · have same := shared (max fragment.first accepted.first) (by omega) (by omega) (by omega) (by omega)
      subst same
      omega
    · have := partFinal.mp (final isFinal)
      omega
    · have := partFinal.mp (final isFinal)
      have := holeFinal.mp (final' isFinal')
      omega
    · have := holeFinal.mp (final' isFinal')
      omega
  · rintro ⟨missing, ⟨low, high⟩, final'⟩
    have apart : hole ≠ part := by
      rintro rfl
      rw [missing] at filled
      cases filled
    rcases clashes with ⟨low', high', _⟩ | ⟨isFinal, beyond | ⟨isFinal', elsewhere⟩⟩ | ⟨isFinal', early⟩
    · exact apart (shared (max fragment.first accepted.first) (by omega) (by omega) (by omega) (by omega))
    · have := partFinal.mp (final isFinal)
      omega
    · have := partFinal.mp (final isFinal)
      have := holeFinal.mp (final' isFinal')
      exact apart (shared top (by omega) (by omega) (by omega) (by omega))
    · have := holeFinal.mp (final' isFinal')
      exact apart (shared part.first (by omega) (by omega) (by omega) (by omega))

theorem Reassembler.Sound.clash_failed (sound : reassembler.Sound top given)
    (proper : fragment.first ≤ fragment.last) (earlier : accepted ∈ given) (clashes : Clashes fragment accepted) :
    ∃ error, reassembler.deliver fragment = (reassembler.retire, .failed error) := by
  obtain ⟨part, member, repeats⟩ := sound.given accepted earlier
  have refused : ∀ hole ∈ reassembler.holes, ¬ hole.Repeats fragment ∧ ¬ hole.Accepts fragment :=
    fun hole inside => sound.laid.clash_refused proper member repeats clashes inside
  rcases Reassembler.process_cases sound.running fragment with
    ⟨⟨error, failed⟩, _⟩ | ⟨_, ⟨hole, inside, again⟩, _⟩ | ⟨index, gap, found, accepts, _⟩
  · exact ⟨error, Reassembler.deliver_failed failed⟩
  · exact absurd again (refused hole inside).1
  · exact absurd accepts (refused gap (mem_of_getElem? found)).2

end BVisor.Network
