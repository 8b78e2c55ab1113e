import BVisor.Descriptors.Operations

/-! # All tables and all references, in every run -/

namespace BVisor.Descriptors

open Data List Function

variable {File : Type} [DecidableEq File]
variable {s : Sentry File} {t : FDTable File} {i : Nat} {α : Type} {x : α} {xs : List α}

/-- Every table agrees with its bitmap, and every count is the references held outside of the
tables and one for each entry that names the file. -/
structure Sentry.Sound (s : Sentry File) : Prop where
  running : s.panicked = false
  agrees : ∀ t ∈ s.tables, t.Agrees
  refs : ∀ file, s.refs file = s.held file + (s.tables.map (·.naming file)).sum

theorem sum_eraseIdx (g : α → Nat) (found : xs[i]? = some x) :
    (xs.map g).sum = g x + ((xs.eraseIdx i).map g).sum := by
  obtain ⟨inside, rfl⟩ := List.getElem?_eq_some_iff.mp found
  rw [← ((getElem_cons_eraseIdx_perm inside).map g).sum_eq, map_cons, sum_cons]

theorem sum_set (g : α → Nat) (found : xs[i]? = some x) (y : α) :
    ((xs.set i y).map g).sum = g y + ((xs.eraseIdx i).map g).sum := by
  obtain ⟨inside, -⟩ := List.getElem?_eq_some_iff.mp found
  rw [sum_eraseIdx g (List.getElem?_set_self inside), eraseIdx_set_eq]

noncomputable def Sentry.outside (s : Sentry File) (i : Nat) : File → Nat :=
  fun file => s.held file + ((s.tables.eraseIdx i).map (·.naming file)).sum

open Sentry

omit [DecidableEq File] in
theorem Sentry.Sound.world (sound : s.Sound) (found : s.tables[i]? = some t) :
    World.Sound (s.outside i) ⟨s.refs, t⟩ := by
  refine ⟨sound.agrees t (mem_of_getElem? found), fun file => ?_⟩
  have refs := sound.refs file
  rw [sum_eraseIdx (·.naming file) found] at refs
  simp only [outside, refs]
  omega

omit [DecidableEq File] in
/-- A table and the references have changed, and those that went elsewhere are held or are in
tables that were added. -/
theorem Sentry.Sound.update {after : World File} {base : File → Nat} (sound : s.Sound)
    (found : s.tables[i]? = some t) (held : File → Nat) (added : List (FDTable File))
    (afterSound : after.Sound base) (addedAgrees : ∀ t ∈ added, t.Agrees)
    (counts : ∀ file, base file + s.held file = s.outside i file + held file +
      (added.map (·.naming file)).sum) :
    Sentry.Sound ⟨after.refs, held, s.tables.set i after.table ++ added, false⟩ := by
  refine ⟨rfl, fun table member => ?_, fun file => ?_⟩
  · obtain changed | new := mem_append.mp member
    · obtain old | rfl := mem_or_eq_of_mem_set changed
      · exact sound.agrees table old
      · exact afterSound.agrees
    · exact addedAgrees table new
  · have count := counts file
    dsimp only
    rw [afterSound.accounts file, map_append, sum_append, sum_set (·.naming file) found]
    simp only [outside] at count
    omega

variable {after : Sentry File}

section

variable (sound : s.Sound)
include sound

theorem Sentry.Sound.onTable
    {op : World File → Option (World File × List File)}
    (keeps : ∀ w : World File, w.Sound (s.outside i) →
      ∃ next returned, op w = some (next, returned) ∧ next.Sound (gain (s.outside i) returned))
    (stepped : s.onTable i op = some after) : after.Sound := by
  simp only [Sentry.onTable] at stepped
  split at stepped
  · cases stepped
  next table found =>
  obtain ⟨next, returned, ran, nextSound⟩ := keeps _ (sound.world found)
  rw [ran] at stepped
  cases stepped
  have updated := sound.update found (fun file => s.held file + returned.count file) []
    nextSound (fun _ member => (nomatch member)) fun file => by simp [gain]; omega
  rw [append_nil] at updated
  rw [sound.running]
  exact updated

theorem Sentry.Sound.fork {maxFd : Int} (stepped : s.perform (.fork i maxFd) = some after) : after.Sound := by
  simp only [perform] at stepped
  split at stepped
  · cases stepped
  next table found =>
  obtain ⟨next, clone, ran, -, nextSound, agrees, -⟩ := (sound.world found).fork maxFd
  rw [ran] at stepped
  cases stepped
  rw [sound.running]
  exact sound.update found s.held [clone] nextSound
    (fun t member => by rw [mem_singleton.mp member]; exact agrees)
    fun file => by simp [plus]; omega

theorem Sentry.Sound.saveLoad {order : List (Nat × Descriptor File)}
    (stepped : s.perform (.saveLoad i order) = some after) :
    after.Sound := by
  simp only [perform] at stepped
  split at stepped
  · cases stepped
  next table found =>
  have world := sound.world found
  rw [world.save] at stepped
  dsimp only at stepped
  split at stepped
  · next permuted =>
    obtain ⟨next, ran, nextSound, -⟩ := world.load (isPerm_iff.mp permuted)
    rw [ran] at stepped
    cases stepped
    have updated := sound.update found s.held [] nextSound
      (fun _ member => (nomatch member)) fun file => by simp
    rw [append_nil] at updated
    rw [sound.running]
    exact updated
  · cases stepped

theorem Sentry.Sound.rehold (file : File) {refs held : Nat}
    (balance : refs + s.held file = s.refs file + held) :
    Sentry.Sound { s with
      refs := Function.update s.refs file refs
      held := Function.update s.held file held } := by
  refine ⟨sound.running, sound.agrees, fun other => ?_⟩
  have before := sound.refs other
  by_cases same : other = file
  · subst other
    simp only [update_self]
    omega
  · simp only [update_of_ne same]
    exact before

end

theorem isInt32_iff {x : Int} : isInt32 x = true ↔ -2 ^ 31 ≤ x ∧ x < 2 ^ 31 := by
  simp [isInt32]

namespace Sentry

omit [DecidableEq File] in
theorem outside_pos {file : File} (held : 0 < s.held file) : 0 < s.outside i file := by
  simp only [outside]
  omega

theorem step_sound {event : Event File} (sound : s.Sound)
    (stepped : s.step event = some after) : after.Sound := by
  obtain ⟨⟨-, allowed⟩, performed⟩ := Option.ite_none_right_eq_some.mp stepped
  cases event with
  | acquire file =>
    cases performed
    exact sound.rehold file (by omega)
  | release file =>
    cases performed
    have held : 0 < s.held file := of_decide_eq_true allowed
    have refs := sound.refs file
    exact sound.rehold file (by omega)
  | newFDTable =>
    cases performed
    refine ⟨sound.running, fun t member => ?_, fun file => ?_⟩
    · obtain old | new := mem_append.mp member
      · exact sound.agrees t old
      · rw [mem_singleton.mp new]
        exact FDTable.agrees_empty
    · simp [FDTable.naming_empty, sound.refs file]
  | newFDs i minFD files flags maxFDLimit cur =>
    simp only [Sentry.allowed, Bool.and_eq_true, all_eq_true, decide_eq_true_eq] at allowed
    obtain ⟨⟨number, possible⟩, held⟩ := allowed
    rw [perform] at performed
    apply sound.onTable _ performed
    intro w world
    obtain ⟨next, result, ran, nextSound, -⟩ := world.newFDs (isInt32_iff.mp number).2 possible
      cur (fun file member => outside_pos (held file member)) flags
    exact ⟨next, [], by rw [ran]; rfl, by rw [gain_nil]; exact nextSound⟩
  | newFDAt i fd file flags maxFDLimit cur =>
    simp only [Sentry.allowed, Bool.and_eq_true, decide_eq_true_eq] at allowed
    obtain ⟨⟨-, possible⟩, held⟩ := allowed
    rw [perform] at performed
    apply sound.onTable _ performed
    intro w world
    obtain ⟨next, result, ran, nextSound⟩ := world.newFDAt possible (outside_pos held) fd flags cur
    refine ⟨next, returnedFiles result, ?_, nextSound⟩
    rw [ran]
    cases result <;> rfl
  | setFlags i fd flags =>
    rw [perform] at performed
    apply sound.onTable _ performed
    intro w world
    obtain ⟨next, result, ran, nextSound⟩ := world.setFlags fd flags
    exact ⟨next, [], by rw [ran]; rfl, by rw [gain_nil]; exact nextSound⟩
  | setFlagsForRange i startFd endFd flags =>
    rw [perform] at performed
    apply sound.onTable _ performed
    intro w world
    obtain ⟨next, result, ran, nextSound⟩ := world.setFlagsForRange startFd endFd flags
    exact ⟨next, [], by rw [ran]; rfl, by rw [gain_nil]; exact nextSound⟩
  | remove i fd =>
    rw [perform] at performed
    apply sound.onTable _ performed
    intro w world
    obtain ⟨next, df, ran, nextSound⟩ := world.remove (isInt32_iff.mp allowed).2
    exact ⟨next, df.toList, by rw [ran]; rfl, nextSound⟩
  | removeIf i cond =>
    rw [perform] at performed
    apply sound.onTable _ performed
    intro w world
    obtain ⟨next, ran, nextSound, -⟩ := world.removeIf cond
    exact ⟨next, [], by rw [ran]; rfl, by rw [gain_nil]; exact nextSound⟩
  | removeNextInRange i startFd endFd =>
    rw [perform] at performed
    apply sound.onTable _ performed
    intro w world
    obtain ⟨next, fd, df, ran, nextSound⟩ := world.removeNextInRange startFd endFd
    exact ⟨next, df.toList, by rw [ran]; rfl, nextSound⟩
  | fork i maxFd => exact sound.fork performed
  | saveLoad i order => exact sound.saveLoad performed

omit [DecidableEq File] in
theorem init_sound : (init File).Sound :=
  ⟨rfl, fun _ member => (nomatch member), fun _ => rfl⟩

end Sentry

omit [DecidableEq File] in
/-- `NewFDs` returns `EMFILE` exactly when too few descriptors are free, or when no file is given
and the search would begin beyond the limit. -/
theorem NewFDsResult.emfile_iff {w after : World File} {minFD : Int} {files : List File}
    {flags : FDFlags} {stop : Nat} {result : Except Errno (List Nat)}
    (done : NewFDsResult w minFD files flags stop after result) :
    result = .error .EMFILE ↔ 0 ≤ minFD ∧
      ((freeIn w.table.Taken minFD.toNat stop).ncard < files.length ∨
        files = [] ∧ stop < minFD) := by
  cases done with
  | installed valid length lowest bounded possible installed =>
    have room := lowest.length_le bounded
    constructor
    · nofun
    · rintro ⟨-, short | ⟨empty, beyond⟩⟩
      · omega
      · have := possible empty
        omega
  | negative invalid unchanged =>
    constructor
    · nofun
    · rintro ⟨valid, -⟩
      omega
  | exhausted valid short entries refs bits count => exact ⟨fun _ => ⟨valid, short⟩, fun _ => rfl⟩

/-- What is asked of a state: nothing has panicked, bitmaps and tables agree, counts include one
reference for each entry, and `NewFDs` allocates as it should on each table. -/
structure Sentry.Consistent (s : Sentry File) : Prop where
  running : s.panicked = false
  bits : ∀ t ∈ s.tables, ∀ fd, t.fdBitmap.has fd = true ↔ ∃ d, t.get fd = some d
  refs : ∀ file, s.refs file = s.held file + (s.tables.map (·.naming file)).sum
  newFDs : ∀ i t minFD files flags maxFDLimit cur, s.tables[i]? = some t →
    s.allowed (.newFDs i minFD files flags maxFDLimit cur) = true →
    ∃ after result,
      World.newFDs ⟨s.refs, t⟩ minFD files flags maxFDLimit cur = some (after, result) ∧
      NewFDsResult ⟨s.refs, t⟩ minFD files flags (World.limit maxFDLimit cur) after result ∧
      (result = .error .EMFILE ↔ 0 ≤ minFD ∧
        ((freeIn t.Taken minFD.toNat (World.limit maxFDLimit cur)).ncard < files.length ∨
          files = [] ∧ (World.limit maxFDLimit cur : Int) < minFD))

theorem Sentry.Sound.consistent (sound : s.Sound) : s.Consistent := by
  refine ⟨sound.running, fun t member fd => ?_, sound.refs, ?_⟩
  · rw [(sound.agrees t member).bits, Option.isSome_iff_exists]
  · intro i t minFD files flags maxFDLimit cur found allowed
    simp only [Sentry.allowed, Bool.and_eq_true, all_eq_true, decide_eq_true_eq] at allowed
    obtain ⟨⟨number, possible⟩, held⟩ := allowed
    obtain ⟨after, result, ran, -, done⟩ := (sound.world found).newFDs (isInt32_iff.mp number).2
      possible cur (fun file member => outside_pos (held file member)) flags
    exact ⟨after, result, ran, done, done.emfile_iff⟩

/-- After every sequence of operations on descriptor tables, the tables are consistent. -/
theorem descriptor_tables_consistent (events : List (Event File))
    (ran : run Sentry.step (Sentry.init File) events = some s) : s.Consistent :=
  (run_invariant Sentry.Sound (fun _ _ _ sound stepped => Sentry.step_sound sound stepped) ran
    Sentry.init_sound).consistent

def oneDescriptor : List (Event Nat) :=
  [.newFDTable, .acquire 7, .newFDs 0 0 [7] ⟨false⟩ 100 none]

theorem one_descriptor_consistent :
    ∃ s, run Sentry.step (Sentry.init Nat) oneDescriptor = some s ∧
      (s.tables.map fun t => t.get 0) = [some ⟨7, ⟨false⟩⟩] ∧ s.Consistent :=
  ⟨_, rfl, rfl, descriptor_tables_consistent oneDescriptor rfl⟩

/-- A negative bound is refused with `EINVAL`, though a descriptor is free; with no file given and a
bound beyond the limit, the answer is `EMFILE`. -/
theorem other_answers :
    ∃ s : Sentry Nat, run Sentry.step (Sentry.init Nat) [.newFDTable, .acquire 7] = some s ∧
      ∃ t, s.tables[0]? = some t ∧
        s.allowed (.newFDs 0 (-1) [7] ⟨false⟩ 100 none) = true ∧
        (World.newFDs ⟨s.refs, t⟩ (-1) [7] ⟨false⟩ 100 none).map (·.2) =
          some (.error .EINVAL) ∧
        s.allowed (.newFDs 0 101 [] ⟨false⟩ 100 none) = true ∧
        (World.newFDs ⟨s.refs, t⟩ 101 [] ⟨false⟩ 100 none).map (·.2) = some (.error .EMFILE) :=
  ⟨_, rfl, _, rfl, rfl, rfl, rfl, rfl⟩

end BVisor.Descriptors
