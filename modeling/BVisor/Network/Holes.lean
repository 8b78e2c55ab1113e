import BVisor.Data.Tiling
import BVisor.Network.Reassembler

/-! The ranges of a reassembler: what the scan finds among them, and how they tile the packet. -/

namespace BVisor.Network

open Data List Hole

variable {fragment : Fragment} {hole gap : Hole} {holes : List Hole} {index top : Nat} {α : Type}

def Hole.Touches (hole : Hole) (fragment : Fragment) : Prop :=
  hole.first ≤ fragment.last ∧ fragment.first ≤ hole.last

def Hole.Contains (hole : Hole) (fragment : Fragment) : Prop :=
  hole.first ≤ fragment.first ∧ fragment.last ≤ hole.last

def Hole.Repeats (hole : Hole) (fragment : Fragment) : Prop :=
  hole.filled = true ∧ hole.first = fragment.first ∧ hole.last = fragment.last ∧
    (fragment.more = false → hole.final = true)

def Hole.Accepts (hole : Hole) (fragment : Fragment) : Prop :=
  hole.filled = false ∧ hole.Contains fragment ∧ (fragment.more = false → hole.final = true)

def Finds (fragment : Fragment) (holes : List Hole) (index : Nat) (found : Bool) :
    Except FragmentError Found → Prop
  | .error _ =>
    ∃ hole ∈ holes, hole.Touches fragment ∧ ¬ hole.Repeats fragment ∧ ¬ hole.Accepts fragment
  | .ok .nothing => found = false ∧ ∀ hole ∈ holes, ¬ hole.Touches fragment
  | .ok .duplicate =>
    (found = true ∨ ∃ hole ∈ holes, hole.Repeats fragment) ∧
      ∀ hole ∈ holes, hole.Touches fragment → hole.Repeats fragment
  | .ok (.gap position) =>
    index ≤ position ∧
      ∃ hole, holes[position - index]? = some hole ∧ hole.Accepts fragment

theorem Finds.skip {before after : Bool} {result : Except FragmentError Found}
    (skips : ¬ hole.Touches fragment ∧ after = before ∨ hole.Repeats fragment ∧ after = true)
    (later : Finds fragment holes (index + 1) after result) :
    Finds fragment (hole :: holes) index before result := by
  match result with
  | .error _ =>
    obtain ⟨other, member, touched⟩ := later
    exact ⟨other, mem_cons_of_mem hole member, touched⟩
  | .ok .nothing =>
    obtain ⟨none, away⟩ := later
    rcases skips with ⟨untouched, same⟩ | ⟨_, seen⟩
    · exact ⟨same ▸ none, by simpa [untouched] using away⟩
    · rw [none] at seen
      cases seen
  | .ok .duplicate =>
    obtain ⟨seen, same⟩ := later
    rcases skips with ⟨untouched, rfl⟩ | ⟨repeats, _⟩
    · refine ⟨seen.imp_right fun ⟨other, member, found⟩ =>
        ⟨other, mem_cons_of_mem hole member, found⟩, ?_⟩
      simpa [untouched] using same
    · refine ⟨.inr ⟨hole, mem_cons_self, repeats⟩, ?_⟩
      intro other member
      rcases mem_cons.mp member with rfl | inner
      · exact fun _ => repeats
      · exact same other inner
  | .ok (.gap position) =>
    obtain ⟨past, other, lookup, accepts⟩ := later
    refine ⟨by omega, other, ?_, accepts⟩
    rw [show position - index = position - (index + 1) + 1 by omega]
    exact lookup

theorem scan_finds (fragment : Fragment) (holes : List Hole) (index : Nat) (found : Bool) :
    Finds fragment holes index found (scan fragment holes index found) := by
  induction holes generalizing index found with
  | nil => cases found <;> simp [scan, Finds]
  | cons hole rest ih =>
    unfold scan
    split
    · rename_i away
      refine (ih (index + 1) found).skip (.inl ⟨?_, rfl⟩)
      rintro ⟨low, high⟩
      omega
    rename_i near
    have touched : hole.Touches fragment := ⟨by omega, by omega⟩
    split
    · rename_i sticksOut
      refine ⟨hole, mem_cons_self, touched, ?_, ?_⟩
      · rintro ⟨_, first, last, _⟩
        omega
      · rintro ⟨_, ⟨low, high⟩, _⟩
        omega
    rename_i inside
    split
    · rename_i conflict
      obtain ⟨isFinal, wrong⟩ := conflict
      refine ⟨hole, mem_cons_self, touched, ?_, ?_⟩
      · rintro ⟨_, _, last, final⟩
        rcases wrong with notFinal | ⟨_, ends⟩
        · simp [final isFinal] at notFinal
        · exact ends last
      · rintro ⟨missing, _, final⟩
        rcases wrong with notFinal | ⟨filled, _⟩
        · simp [final isFinal] at notFinal
        · simp [missing] at filled
    rename_i agrees
    have final : fragment.more = false → hole.final = true := by
      intro isFinal
      cases isLast : hole.final with
      | true => rfl
      | false => exact absurd ⟨isFinal, .inl isLast⟩ agrees
    split
    · rename_i filled
      split
      · rename_i differs
        refine ⟨hole, mem_cons_self, touched, ?_, ?_⟩
        · rintro ⟨_, first, last, _⟩
          omega
        · rintro ⟨missing, _⟩
          simp [missing] at filled
      · rename_i same
        exact (ih (index + 1) true).skip (.inr ⟨⟨filled, by omega, by omega, final⟩, rfl⟩)
    · rename_i missing
      refine ⟨Nat.le_refl index, hole, by simp, ?_, ⟨by omega, by omega⟩, final⟩
      simpa using missing

/-- The ranges of a reassembler: they tile `[0, top]`, the one at the end is the final one, and a
missing range is followed by a filled one or by nothing. -/
structure Laid (holes : List Hole) (top : Nat) : Prop where
  tiled : ∃ sorted, holes.Perm sorted ∧ Tiles Hole.first Hole.last 0 sorted (top + 1)
  final : ∀ hole ∈ holes, hole.final = true ↔ hole.last = top
  next : ∀ hole ∈ holes, hole.filled = false →
    hole.last = top ∨ ∃ other ∈ holes, other.filled = true ∧ other.first = hole.last + 1

section

variable (laid : Laid holes top)
include laid

theorem Laid.bounds (member : hole ∈ holes) : hole.first ≤ hole.last ∧ hole.last ≤ top := by
  obtain ⟨sorted, perm, tiled⟩ := laid.tiled
  have := tiled.bounds (perm.mem_iff.mp member)
  omega

theorem Laid.covers {point : Nat} (within : point ≤ top) :
    ∃ hole ∈ holes, hole.first ≤ point ∧ point ≤ hole.last := by
  obtain ⟨sorted, perm, tiled⟩ := laid.tiled
  obtain ⟨hole, member, found⟩ := tiled.covers (Nat.zero_le point) (Nat.lt_succ_of_le within)
  exact ⟨hole, perm.mem_iff.mpr member, found⟩

theorem Laid.unique {other : Hole} (point : Nat) (member : hole ∈ holes)
    (member' : other ∈ holes) (within : hole.first ≤ point ∧ point ≤ hole.last)
    (within' : other.first ≤ point ∧ point ≤ other.last) : hole = other := by
  obtain ⟨sorted, perm, tiled⟩ := laid.tiled
  exact tiled.unique (perm.mem_iff.mp member) (perm.mem_iff.mp member') within within'

theorem Laid.sorted : Tiles first last 0 (sortHoles holes) (top + 1) := by
  obtain ⟨sorted, perm, tiled⟩ := laid.tiled
  have total : Std.Total fun first second : Hole => first.first ≤ second.first :=
    ⟨fun first second => Nat.le_total first.first second.first⟩
  have trans : IsTrans Hole fun first second => first.first ≤ second.first := ⟨fun _ _ _ => Nat.le_trans⟩
  have perm' : (sortHoles holes).Perm sorted := (perm_insertionSort _ holes).trans perm
  have ascending : sorted.Pairwise fun first second => first.first ≤ second.first := by
    refine tiled.pairwise.imp_of_mem fun {first second} member _ apart => ?_
    have := (tiled.bounds member).2.1
    omega
  have same : sortHoles holes = sorted := by
    refine perm'.eq_of_pairwise ?_ (pairwise_insertionSort _ holes) ascending
    intro first second member member' le ge
    have proper := (tiled.bounds (perm'.mem_iff.mp member)).2.1
    have proper' := (tiled.bounds member').2.1
    exact tiled.unique (perm'.mem_iff.mp member) member' ⟨Nat.le_refl _, proper⟩ ⟨by omega, by omega⟩
  rw [same]
  exact tiled

end

theorem set_perm {list : List α} {old : α} (new : α)
    (found : list[index]? = some old) : (old :: list.set index new).Perm (new :: list) := by
  obtain ⟨inside, rfl⟩ := List.getElem?_eq_some_iff.mp found
  refine ((set_perm_cons_eraseIdx inside new).cons _).trans (.trans (.swap _ _ _) ?_)
  exact (getElem_cons_eraseIdx_perm inside).cons new

theorem tiles_nil_of_eq {lo hi : α → Nat} {tiles : List α} {start : Nat}
    (tiled : Tiles lo hi start tiles start) : tiles = [] := by
  cases tiles with
  | nil => rfl
  | cons tile rest =>
    have := tiled.bounds mem_cons_self
    omega

def filling (holes : List Hole) (index : Nat) (gap : Hole) (fragment : Fragment) : List Hole :=
  (holes ++ gap.before fragment ++ gap.after fragment).set index (gap.fill fragment)

theorem filling_perm {before after : List Hole} (found : holes[index]? = some gap)
    (perm : holes.Perm (before ++ gap :: after)) :
    (filling holes index gap fragment).Perm
      (before ++ (gap.before fragment ++ gap.fill fragment :: gap.after fragment) ++ after) := by
  obtain ⟨within, _⟩ := List.getElem?_eq_some_iff.mp found
  have replaced : (holes.set index (gap.fill fragment)).Perm
      (gap.fill fragment :: (before ++ after)) := by
    have swapped := (set_perm (gap.fill fragment) found).trans (perm.cons _)
    have moved : (gap.fill fragment :: (before ++ gap :: after)).Perm
        (gap :: gap.fill fragment :: (before ++ after)) :=
      (perm_middle.cons _).trans (.swap _ _ _)
    exact (swapped.trans moved).cons_inv
  unfold filling
  rw [append_assoc, set_append_left _ _ within]
  refine (replaced.append_right _).trans ?_
  rw [perm_iff_count]
  intro any
  simp only [count_append, count_cons]
  omega

theorem mem_filling (found : holes[index]? = some gap) (laid : Laid holes top) :
    hole ∈ filling holes index gap fragment ↔
      hole ∈ holes ∧ hole ≠ gap ∨ hole ∈ gap.before fragment ∨ hole = gap.fill fragment ∨
        hole ∈ gap.after fragment := by
  obtain ⟨sorted, perm, tiled⟩ := laid.tiled
  obtain ⟨before, after, rfl⟩ := append_of_mem (perm.mem_iff.mp (mem_of_getElem? found))
  have apart : gap ∉ before ∧ gap ∉ after := by
    have proper := (tiled.bounds (mem_append_right before (mem_cons_self))).2.1
    obtain ⟨middle, left, right⟩ := tiles_append_iff.mp tiled
    obtain ⟨begins, _, right⟩ := right
    refine ⟨fun member => ?_, fun member => ?_⟩
    · have := left.bounds member
      omega
    · have := right.bounds member
      omega
  rw [(filling_perm found perm).mem_iff, perm.mem_iff]
  simp only [mem_append, mem_cons]
  constructor
  · rintro ((left | first | filled | last) | right)
    · exact .inl ⟨.inl left, fun same => apart.1 (same ▸ left)⟩
    · exact .inr (.inl first)
    · exact .inr (.inr (.inl filled))
    · exact .inr (.inr (.inr last))
    · exact .inl ⟨.inr (.inr right), fun same => apart.2 (same ▸ right)⟩
  · rintro (⟨left | same | right, other⟩ | first | filled | last)
    · exact .inl (.inl left)
    · exact absurd same other
    · exact .inr right
    · exact .inl (.inr (.inl first))
    · exact .inl (.inr (.inr (.inl filled)))
    · exact .inl (.inr (.inr (.inr last)))

theorem Hole.mem_before :
    hole ∈ gap.before fragment ↔ gap.first < fragment.first ∧
      hole = { first := gap.first, last := fragment.first - 1, filled := false, final := false
               data := [] } := by
  unfold before
  split <;> simp_all

theorem Hole.mem_after :
    hole ∈ gap.after fragment ↔ (fragment.last < gap.last ∧ fragment.more = true) ∧
      hole = { first := fragment.last + 1, last := gap.last, filled := false, final := gap.final
               data := [] } := by
  unfold after
  split <;> simp_all

/-- The end of the packet is known once its final fragment has been put in place. -/
def topAfter (fragment : Fragment) (top : Nat) : Nat :=
  if fragment.more then top else fragment.last

section

variable (laid : Laid holes top) (found : holes[index]? = some gap)
  (proper : fragment.first ≤ fragment.last) (accepts : gap.Accepts fragment)
include laid found proper accepts

theorem Laid.filling_tiled : ∃ sorted, (filling holes index gap fragment).Perm sorted ∧
      Tiles first last 0 sorted (topAfter fragment top + 1) := by
  obtain ⟨sorted, perm, tiled⟩ := laid.tiled
  have member := mem_of_getElem? found
  obtain ⟨_, ⟨low, high⟩, final⟩ := accepts
  obtain ⟨before, after, rfl⟩ := append_of_mem (perm.mem_iff.mp member)
  refine ⟨_, filling_perm found perm, ?_⟩
  obtain ⟨middle, left, begins, _, right⟩ := tiles_append_iff.mp tiled
  rw [tiles_append_iff]
  refine ⟨?_, tiles_append_iff.mpr ⟨middle, left, tiles_append_iff.mpr ⟨fragment.first, ?_, rfl, proper, ?_⟩⟩, ?_⟩
  · exact if fragment.more then gap.last + 1 else fragment.last + 1
  · unfold Hole.before
    split
    · refine ⟨begins, by simp only; omega, ?_⟩
      exact Nat.sub_add_cancel (by omega)
    · exact show middle = fragment.first by omega
  · show Tiles first last (fragment.last + 1) (gap.after fragment) _
    unfold Hole.after
    cases more : fragment.more with
    | true =>
      split
      · rename_i inside
        exact ⟨rfl, inside.1, rfl⟩
      rename_i whole
      have : fragment.last = gap.last := by
        simp at whole
        omega
      exact congrArg (· + 1) this
    | false => simp [Tiles]
  · unfold topAfter
    cases more : fragment.more with
    | true => exact right
    | false =>
      have atTop := (laid.final gap member).mp (final more)
      rw [atTop] at right
      rw [tiles_nil_of_eq right]
      rfl

theorem Laid.fill : Laid (filling holes index gap fragment) (topAfter fragment top) := by
  have member := mem_of_getElem? found
  have tiled := laid.filling_tiled found proper accepts
  obtain ⟨_, ⟨low, high⟩, final⟩ := accepts
  have below := (laid.bounds member).2
  -- a final fragment goes to the last range, before which all the others are
  have others : fragment.more = false → ∀ hole ∈ holes, hole ≠ gap → hole.last < gap.first := by
    intro isFinal hole inside different
    have atTop := (laid.final gap member).mp (final isFinal)
    have bounds := laid.bounds inside
    refine Nat.lt_of_not_le fun reaches => different ?_
    exact laid.unique hole.last inside member ⟨bounds.1, Nat.le_refl _⟩ ⟨reaches, by omega⟩
  refine ⟨tiled, ?_, ?_⟩
  · intro hole inside
    unfold topAfter
    rcases (mem_filling found laid).mp inside with ⟨old, different⟩ | before | rfl | after
    · rw [laid.final hole old]
      cases more : fragment.more with
      | true => rfl
      | false =>
        have atTop := (laid.final gap member).mp (final more)
        have := others more hole old different
        have := (laid.bounds old).1
        have := (laid.bounds member).1
        simp only [Bool.false_eq_true, if_false]
        omega
    · obtain ⟨inner, rfl⟩ := mem_before.mp before
      simp only [Bool.false_eq_true, false_iff]
      split <;> omega
    · simp only [Hole.fill]
      cases more : fragment.more with
      | true =>
        have := laid.final gap member
        simp only [and_true, if_true]
        split
        · simp only [Bool.false_eq_true, false_iff]
          omega
        · rw [this]
          omega
      | false => simp [final more]
    · obtain ⟨⟨inner, more⟩, rfl⟩ := mem_after.mp after
      simp only [more, if_true]
      exact laid.final gap member
  · intro hole inside missing
    have there : gap.fill fragment ∈ filling holes index gap fragment :=
      (mem_filling found laid).mpr (.inr (.inr (.inl rfl)))
    have kept : ∀ other ∈ holes, other.filled = true →
        other ∈ filling holes index gap fragment := by
      intro other old filled
      refine (mem_filling found laid).mpr (.inl ⟨old, ?_⟩)
      rintro rfl
      simp_all
    unfold topAfter
    rcases (mem_filling found laid).mp inside with ⟨old, different⟩ | before | rfl | after
    · rcases laid.next hole old missing with atTop | ⟨other, inner, filled, follows⟩
      · cases more : fragment.more with
        | true => exact .inl atTop
        | false =>
          have := others more hole old different
          omega
      · exact .inr ⟨other, kept other inner filled, filled, follows⟩
    · obtain ⟨inner, rfl⟩ := mem_before.mp before
      exact .inr ⟨_, there, rfl, by simp only [Hole.fill]; omega⟩
    · cases missing
    · obtain ⟨⟨inner, more⟩, rfl⟩ := mem_after.mp after
      simp only [more, if_true]
      rcases laid.next gap member ‹_› with atTop | ⟨other, old, filled, follows⟩
      · exact .inl atTop
      · exact .inr ⟨other, kept other old filled, filled, follows⟩

end

theorem filling_countP (laid : Laid holes top) (found : holes[index]? = some gap) (missing : gap.filled = false) :
    (filling holes index gap fragment).countP filled = holes.countP filled + 1 := by
  obtain ⟨sorted, perm, _⟩ := laid.tiled
  obtain ⟨before, after, rfl⟩ := append_of_mem (perm.mem_iff.mp (mem_of_getElem? found))
  have none : ∀ holes : List Hole, (∀ hole ∈ holes, hole.filled = false) →
      holes.countP filled = 0 := by
    intro holes unfilled
    exact countP_eq_zero.mpr fun hole member => by simp [unfilled hole member]
  have noneBefore := none (gap.before fragment) fun hole member => by
    rw [(mem_before.mp member).2]
  have noneAfter := none (gap.after fragment) fun hole member => by
    rw [(mem_after.mp member).2]
  have one : (gap.fill fragment).filled = true := rfl
  rw [(filling_perm found perm).countP_eq, perm.countP_eq]
  simp only [countP_append, countP_cons, noneBefore, noneAfter, missing, one]
  simp
  omega

end BVisor.Network
