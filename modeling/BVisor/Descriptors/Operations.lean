import BVisor.Descriptors.Allocation

/-! # The other operations on a table -/

namespace BVisor.Descriptors

open Data List Option World FDTable

variable {File : Type} [DecidableEq File]
variable {t : FDTable File} {w : World File} {base : File → Nat} {fd : Nat} {file : File}
  {d : Descriptor File} {τ : Type} {visit : World File × τ → Nat → Descriptor File → Option (World File × τ)}

def returnedFiles : Except Errno (Option File) → List File
  | .ok df => df.toList
  | .error _ => []

section

variable (sound : w.Sound base)
include sound

theorem World.Sound.newFDAt {maxFDLimit : Nat}
    (possible : maxFDLimit ≤ MaxFdLimit) (held : 0 < base file) (fd : Int) (flags : FDFlags)
    (cur : Option UInt64) :
    ∃ after result, w.newFDAt fd file flags maxFDLimit cur = some (after, result) ∧
      after.Sound (gain base (returnedFiles result)) := by
  have refused : ∀ err, w.Sound (gain base (returnedFiles (.error err))) := by
    intro err
    rw [returnedFiles, gain_nil]
    exact sound
  simp only [World.newFDAt]
  split
  · exact ⟨w, _, rfl, refused _⟩
  split
  · exact ⟨w, _, rfl, refused _⟩
  next bounded =>
  split
  · exact ⟨w, _, rfl, refused _⟩
  have alive : w.refs file ≠ 0 := by
    rw [sound.accounts file]
    omega
  obtain ⟨after, df, result, afterSound, -⟩ := sound.put (show fd.toNat < MaxFdLimit by omega) alive flags
  rw [result]
  cases df with
  | none => exact ⟨_, _, rfl, afterSound⟩
  | some df => exact ⟨_, _, rfl, afterSound⟩

theorem World.Sound.setFlags (fd : Int) (flags : FDFlags) :
    ∃ after result, w.setFlags fd flags = some (after, result) ∧ after.Sound base := by
  simp only [World.setFlags]
  split
  · exact ⟨w, _, rfl, sound⟩
  cases found : w.table.get fd.toNat with
  | none => exact ⟨w, _, rfl, sound⟩
  | some d =>
    obtain ⟨after, result, afterSound, -⟩ := sound.reflag found flags
    exact ⟨after, .ok (), by simp only [World.install, result], afterSound⟩

theorem World.Sound.setFlagsLoop (endFd : Nat) (flags : FDFlags)
    (turns start : Nat) (enough : w.table.fdBitmap.bitBlock.length * 64 - start < turns) :
    ∃ after, setFlagsLoop endFd flags turns start w = some after ∧ after.Sound base := by
  induction turns generalizing w start with
  | zero => omega
  | succ turns ih =>
    have search := w.table.fdBitmap.firstOne_spec start
    cases found : w.table.fdBitmap.firstOne start with
    | none => exact ⟨w, by simp only [setFlagsLoop, found], sound⟩
    | some fd =>
      rw [found] at search
      obtain ⟨above, one, -⟩ := search
      by_cases inside : fd ≤ endFd
      · obtain ⟨d, entry⟩ := isSome_iff_exists.mp ((sound.agrees.bits fd).symm.trans one)
        obtain ⟨next, result, nextSound, bitmap, -⟩ := sound.reflag entry flags
        have room := Bitmap.has_lt one
        obtain ⟨after, ran, afterSound⟩ := ih nextSound (fd + 1) (by rw [bitmap]; omega)
        refine ⟨after, ?_, afterSound⟩
        simp only [setFlagsLoop, found, if_pos inside, entry, map_some, result, ran]
      · exact ⟨w, by simp only [setFlagsLoop, found, if_neg inside], sound⟩

theorem World.Sound.setFlagsForRange (startFd endFd : Int) (flags : FDFlags) :
    ∃ after result, w.setFlagsForRange startFd endFd flags = some (after, result) ∧
      after.Sound base := by
  simp only [World.setFlagsForRange]
  split
  · exact ⟨w, _, rfl, sound⟩
  · obtain ⟨after, ran, afterSound⟩ := sound.setFlagsLoop endFd.toNat flags
      (w.table.fdBitmap.bitBlock.length * 64 + 1) startFd.toNat (by omega)
    exact ⟨after, .ok (), by rw [ran], afterSound⟩

theorem World.Sound.remove {fd : Int} (upper : fd < 2 ^ 31) :
    ∃ after df, w.remove fd = some (after, df) ∧ after.Sound (gain base df.toList) := by
  simp only [World.remove]
  split
  · exact ⟨w, none, rfl, by rw [toList_none, gain_nil]; exact sound⟩
  · obtain ⟨after, zapped, afterSound, -⟩ := sound.zap (show fd.toNat < 2 ^ 31 by omega)
    exact ⟨after, _, zapped, afterSound⟩

theorem World.Sound.removeNextInRange (startFd endFd : Int) :
    ∃ after fd df, w.removeNextInRange startFd endFd = some (after, fd, df) ∧
      after.Sound (gain base df.toList) := by
  have none : w.Sound (gain base (none : Option File).toList) := by
    rw [toList_none, gain_nil]
    exact sound
  simp only [World.removeNextInRange]
  split
  · exact ⟨w, _, _, rfl, none⟩
  have search := w.table.fdBitmap.firstOne_spec startFd.toNat
  cases found : w.table.fdBitmap.firstOne startFd.toNat with
  | none => exact ⟨w, _, _, rfl, none⟩
  | some fd =>
    rw [found] at search
    dsimp only
    split
    · exact ⟨w, _, _, rfl, none⟩
    · have used := (sound.agrees.bits fd).symm.trans search.2.1
      obtain ⟨after, zapped, afterSound, -⟩ := sound.zap (MaxFdLimit_lt (sound.agrees.bounded fd used))
      exact ⟨after, fd, _, by rw [zapped], afterSound⟩

/-! ## Traversals -/

theorem World.Sound.incRef (alive : w.refs file ≠ 0) :
    ∃ held, w.incRef file = some held ∧ held.Sound (gain base [file]) ∧ held.table = w.table := by
  refine ⟨⟨Function.update w.refs file (w.refs file + 1), w.table⟩, if_neg alive,
    ⟨sound.agrees, fun other => ?_⟩, rfl⟩
  have before := sound.accounts other
  rw [gain_single]
  by_cases same : file = other
  · subst same
    simp only [Function.update_self, if_true]
    omega
  · simp only [Function.update_of_ne (Ne.symm same), if_neg same]
    omega

end

theorem Bitmap.remove_sameFrom {b after : Bitmap} {i : Nat} (removed : b.remove i = some after) :
    Bitmap.SameFrom (i / 64 + 1) after b := by
  intro j later
  simp only [Bitmap.remove] at removed
  split at removed
  · cases removed
  split at removed
  · cases removed
    simp only [Bitmap.has, List.getD, List.getElem?_set_ne (show i / 64 ≠ j / 64 by omega)]
  · cases removed
    rfl

variable {after : World File}

theorem World.set_bitmap {file df : Option File} {flags : FDFlags}
    (result : w.set fd file flags = some (after, df)) :
    after.table.fdBitmap = w.table.fdBitmap := by
  simp only [set, incRef] at result
  split at result
  · cases result
    rfl
  split at result
  · cases result
    rfl
  split at result
  · cases result
  next counted =>
  split at counted
  · cases counted
  · cases counted
    cases result
    rfl

theorem World.zap_sameFrom {df : Option File} (zapped : w.zap fd = some (after, df)) :
    Bitmap.SameFrom (fd / 64 + 1) after.table.fdBitmap w.table.fdBitmap := by
  simp only [zap] at zapped
  split at zapped
  · cases zapped
  · next cleared result =>
    cases zapped
    rw [set_bitmap result]
    exact fun _ _ => rfl
  · next cleared file result =>
    split at zapped
    · cases zapped
    next removed bit =>
    cases zapped
    simp only [removeBit] at bit
    split at bit
    · cases bit
    next bitmap gone =>
    cases bit
    rw [set_bitmap result] at gone
    exact Bitmap.remove_sameFrom gone

theorem World.decRef_table (dropped : w.decRef file = some after) : after.table = w.table := by
  obtain ⟨-, ⟨⟩⟩ := ite_none_left_eq_some.mp dropped
  rfl

theorem World.incRef_table (taken : w.incRef file = some after) : after.table = w.table := by
  obtain ⟨-, ⟨⟩⟩ := ite_none_left_eq_some.mp taken
  rfl

theorem World.visitHeld_behind
    (kept : ∀ s fd d after, visit s fd d = some after →
      Bitmap.SameFrom (fd / 64 + 1) after.1.table.fdBitmap s.1.table.fdBitmap) :
    StaysBehind (fun s : World File × τ => s.1.table.fdBitmap) (visitHeld visit) := by
  intro s fd after ran
  simp only [visitHeld] at ran
  split at ran
  · cases ran
    exact fun _ _ => rfl
  split at ran
  · cases ran
    exact fun _ _ => rfl
  next held taken =>
  split at ran
  · cases ran
  next next own visited =>
  split at ran
  · cases ran
  next released dropped =>
  cases ran
  have same := kept _ _ _ _ visited
  intro j later
  simp only [decRef_table dropped]
  rw [same j later, incRef_table taken]

def removes (cond : File → FDFlags → Bool) (entry : Option (Descriptor File)) : Bool :=
  entry.any fun d => cond d.file d.flags

/-- What holds before the first visit of a table and is kept by each visit, of the descriptors seen
so far, the table and the state of the function, holds after the last. -/
theorem World.Sound.visits {own : τ} {holds : τ → File → Nat}
    {kept : List Nat → World File → τ → Prop}
    (maxFd : Nat) (sound : w.Sound (holds own)) (initially : kept [] w own)
    (behind : ∀ s fd d after, visit s fd d = some after →
      Bitmap.SameFrom (fd / 64 + 1) after.1.table.fdBitmap s.1.table.fdBitmap)
    (unused : ∀ done w own fd, kept done w own → w.table.get fd = none → kept (done ++ [fd]) w own)
    (used : ∀ done w own fd d held, fd ∉ done → kept done w own → w.table.get fd = some d →
      w.Sound (holds own) → held.Sound (gain (holds own) [d.file]) → held.table = w.table →
      ∃ next own', visit (held, own) fd d = some (next, own') ∧
        next.Sound (gain (holds own') [d.file]) ∧ ∀ after : World File,
          after.Sound (holds own') → after.table = next.table → kept (done ++ [fd]) after own') :
    ∃ after own', forEachUpTo maxFd visit (w, own) = some (after, own') ∧
      after.Sound (holds own') ∧ kept (w.table.fdBitmap.ones maxFd) after own' := by
  have visits (fds : List Nat) : ∀ done w own, (done ++ fds).Nodup → w.Sound (holds own) →
      kept done w own → ∃ after own', fds.foldlM (visitHeld visit) (w, own) = some (after, own') ∧
        after.Sound (holds own') ∧ kept (done ++ fds) after own' := by
    induction fds with
    | nil =>
      intro done w own _ sound before
      exact ⟨w, own, rfl, sound, by rwa [append_nil]⟩
    | cons fd rest ih =>
      intro done w own distinct sound before
      have step : ∃ next own', visitHeld visit (w, own) fd = some (next, own') ∧
          next.Sound (holds own') ∧ kept (done ++ [fd]) next own' := by
        cases found : w.table.get fd with
        | none =>
          exact ⟨w, own, by simp only [visitHeld, found], sound, unused done w own fd before found⟩
        | some d =>
          have named : w.table.fileAt fd = some d.file := by simp [fileAt, found]
          have fresh : fd ∉ done := fun member =>
            (nodup_append.mp distinct).2.2 fd member fd mem_cons_self rfl
          obtain ⟨held, taken, heldSound, heldTable⟩ := sound.incRef (sound.accounts.alive named)
          obtain ⟨next, own', ran, nextSound, ends⟩ :=
            used done w own fd d held fresh before found sound heldSound heldTable
          obtain ⟨after, dropped, accounts, table⟩ := nextSound.accounts.decRef
          have afterSound : after.Sound (holds own') := ⟨table ▸ nextSound.agrees, accounts⟩
          refine ⟨after, own', ?_, afterSound, ends after afterSound table⟩
          simp only [visitHeld, found, taken, ran, dropped]
      obtain ⟨next, own', first, nextSound, visited⟩ := step
      rw [foldlM_cons, first]
      have later := ih (done ++ [fd]) next own' (by simpa using distinct) nextSound visited
      rwa [append_assoc] at later
  rw [forEachUpTo, forEach_eq (visitHeld_behind behind)]
  exact visits _ [] w own (w.table.fdBitmap.ones_nodup maxFd) sound initially

theorem World.Sound.removeIf (sound : w.Sound base) (cond : File → FDFlags → Bool) :
    ∃ after, w.removeIf cond = some after ∧ after.Sound base ∧
      ∀ g, after.table.get g = if removes cond (w.table.get g) then none else w.table.get g := by
  have initially : w.Sound (gain base []) := by
    rw [gain_nil]
    exact sound
  have visited := @World.Sound.visits _ _ _ _ (removeIfVisit cond) [] (gain base)
      (fun done v _ => ∀ g, v.table.get g =
        if g ∈ done ∧ removes cond (w.table.get g) then none else w.table.get g)
      MaxFdLimit initially (by simp) ?behind ?unused ?used
  case behind =>
    intro s fd d after ran
    simp only [removeIfVisit] at ran
    split at ran
    · split at ran
      · cases ran
      · next zapped =>
        cases ran
        exact zap_sameFrom zapped
      · next zapped =>
        cases ran
        exact zap_sameFrom zapped
    · cases ran
      exact fun _ _ => rfl
  case unused =>
    intro done v _ fd seen found g
    rw [seen]
    by_cases here : g = fd
    · have absent := (seen fd).symm.trans found
      subst here
      split at absent <;> simp_all
    · simp [here]
  case used =>
    intro done v files fd d held fresh seen found vSound heldSound table
    have named : held.table.fileAt fd = some d.file := by
      rw [table]
      simp [fileAt, found]
    have before : w.table.get fd = some d := by
      simpa [fresh] using (seen fd).symm.trans found
    by_cases chosen : cond d.file d.flags = true
    · have used : (v.table.get fd).isSome = true := by simp [found]
      obtain ⟨zapped, result, zappedSound, entries⟩ := heldSound.zap
        (MaxFdLimit_lt (vSound.agrees.bounded fd used))
      rw [named] at result zappedSound
      refine ⟨zapped, files ++ [d.file], ?_, ?_, ?_⟩
      · simp only [removeIfVisit, chosen, if_true, result]
      · rw [gain_append base files [d.file]]
        exact zappedSound
      · intro after _ afterTable g
        rw [afterTable, entries, table, seen]
        by_cases here : g = fd
        · simp [here, before, removes, chosen]
        · simp [here]
    · refine ⟨held, files, ?_, heldSound, ?_⟩
      · simp only [removeIfVisit, chosen, Bool.false_eq_true, if_false]
      · intro after _ afterTable g
        rw [afterTable, table, seen]
        by_cases here : g = fd
        · simp [here, before, removes, chosen]
        · simp [here]
  obtain ⟨cleared, files, ran, clearedSound, entries⟩ := visited
  obtain ⟨after, dropped, accounts, table⟩ := clearedSound.accounts.decRefs
  refine ⟨after, ?_, ⟨table ▸ clearedSound.agrees, accounts⟩, fun g => ?_⟩
  · simp only [World.removeIf, ran]
    exact dropped
  · rw [table, entries]
    cases found : w.table.get g with
    | none => simp
    | some d => simp [sound.agrees.visited found]

/-! ## Fork -/

noncomputable def plus (base : File → Nat) (t : FDTable File) : File → Nat :=
  fun file => base file + t.naming file

omit [DecidableEq File] in
theorem plus_empty (base : File → Nat) : plus base (empty File) = base := by
  funext file
  simp [plus, naming_empty]

section

variable (sound : w.Sound base)
include sound

theorem World.Sound.fork (maxFd : Int) :
    ∃ after clone, w.fork maxFd = some (after, clone) ∧
      after.table = w.table ∧ after.Sound (plus base clone) ∧ clone.Agrees ∧
      ∀ g, clone.get g =
        if g ∈ w.table.fdBitmap.ones (uint32 maxFd) then w.table.get g else none := by
  have initially : w.Sound (plus base (empty File)) := by
    rw [plus_empty]
    exact sound
  have visited := @World.Sound.visits _ _ _ _ forkVisit (empty File) (plus base)
      (fun done v clone => v.table = w.table ∧ clone.Agrees ∧
        ∀ g, clone.get g = if g ∈ done then w.table.get g else none)
      (uint32 maxFd) initially ⟨rfl, agrees_empty, by simp [get_empty]⟩ ?behind ?unused ?used
  case behind =>
    intro s fd d after ran
    simp only [forkVisit] at ran
    split at ran
    · cases ran
    · cases ran
      exact fun _ _ => rfl
  case unused =>
    rintro done v clone fd ⟨table, agrees, copied⟩ found
    rw [table] at found
    refine ⟨table, agrees, fun g => ?_⟩
    rw [copied]
    by_cases here : g = fd
    · simp [here, found]
    · simp [here]
  case used =>
    rintro done v clone fd d held fresh ⟨table, agrees, copied⟩ found vSound heldSound heldTable
    have used : (v.table.get fd).isSome = true := by simp [found]
    have named : held.table.fileAt fd = some d.file := by
      rw [heldTable]
      simp [fileAt, found]
    -- Seen from the clone, the references of the table are held elsewhere.
    have cloneSound : World.Sound (gain (plus base v.table) [d.file])
        ⟨held.refs, clone⟩ := by
      refine ⟨agrees, fun file => ?_⟩
      have := heldSound.accounts file
      simp only [gain, plus, heldTable] at this ⊢
      omega
    obtain ⟨grown, result, grownSound, entries⟩ := cloneSound.install
      (vSound.agrees.bounded fd used) (by rw [copied, if_neg fresh])
      (heldSound.accounts.alive named) d.flags
    refine ⟨⟨grown.refs, held.table⟩, (grown.addBit fd).table, ?_,
      ⟨heldSound.agrees, fun file => ?_⟩, ?_⟩
    · simp only [forkVisit, result]
    · have := grownSound.accounts file
      have same : (grown.addBit fd).refs file = grown.refs file := rfl
      simp only [gain, plus, heldTable] at this ⊢
      omega
    · intro after _ afterTable
      refine ⟨afterTable.trans (heldTable.trans table), grownSound.agrees, fun g => ?_⟩
      have same : (grown.addBit fd).table.get g = grown.table.get g := rfl
      rw [table] at found
      rw [same, entries, copied]
      by_cases here : g = fd
      · simp [here, found]
      · simp [here]
  obtain ⟨after, clone, ran, afterSound, table, agrees, entries⟩ := visited
  exact ⟨after, clone, ran, table, afterSound, agrees, entries⟩

/-! ## Saving and loading -/

def FDTable.entriesAt (t : FDTable File) (fds : List Nat) : List (Nat × Descriptor File) :=
  fds.filterMap fun fd => (t.get fd).map (fd, ·)

theorem World.Sound.save :
    w.saveDescriptorTable =
      some (w, w.table.entriesAt (w.table.fdBitmap.ones MaxFdLimit)) := by
  have visited := @World.Sound.visits _ _ w _ saveVisit [] (fun _ => base)
      (fun done v saved => v = w ∧ saved = w.table.entriesAt done) MaxFdLimit sound ⟨rfl, rfl⟩
      ?behind ?unused ?used
  case behind =>
    intro s fd d after ran
    cases ran
    exact fun _ _ => rfl
  case unused =>
    rintro done v saved fd ⟨rfl, rfl⟩ found
    simp [entriesAt, found]
  case used =>
    rintro done v saved fd d held - ⟨rfl, rfl⟩ found vSound heldSound heldTable
    refine ⟨held, _, rfl, heldSound, fun after afterSound same => ?_⟩
    have tables : after.table = v.table := same.trans heldTable
    have refs := vSound.accounts.refs_congr afterSound.accounts fun g => by rw [tables]
    refine ⟨?_, by simp [entriesAt, found]⟩
    cases after
    cases v
    simp_all
  obtain ⟨after, saved, ran, -, rfl, rfl⟩ := visited
  exact ran

end

omit [DecidableEq File] in
theorem FDTable.Agrees.mem_entries (agrees : t.Agrees) (fd : Nat) (d : Descriptor File) :
    (fd, d) ∈ t.entriesAt (t.fdBitmap.ones MaxFdLimit) ↔ t.get fd = some d := by
  simp only [entriesAt, mem_filterMap, map_eq_some_iff, Prod.mk.injEq]
  constructor
  · rintro ⟨other, -, entry, found, rfl, rfl⟩
    exact found
  · intro found
    exact ⟨fd, agrees.visited found, d, found, rfl, rfl⟩

omit [DecidableEq File] in
theorem FDTable.entriesAt_nodup (t : FDTable File) {fds : List Nat} (distinct : fds.Nodup) :
    ((t.entriesAt fds).map Prod.fst).Nodup := by
  have keys : ((t.entriesAt fds).map Prod.fst).Sublist fds := by
    induction fds with
    | nil => exact .slnil
    | cons fd rest ih =>
      have later := ih (nodup_cons.mp distinct).2
      cases found : t.get fd with
      | none =>
        simp only [entriesAt, filterMap_cons, found, map_none]
        exact later.cons fd
      | some d =>
        simp only [entriesAt, filterMap_cons, found, map_some, map_cons]
        exact later.cons_cons fd
  exact distinct.sublist keys

theorem World.load_entry (free : w.table.get fd = none)
    (alive : w.refs d.file ≠ 0) (rest : List (Nat × Descriptor File)) :
    loadEntries ((fd, d) :: rest) w = loadEntries rest
      (addBit ⟨w.refs, w.table.swap fd (some d)⟩ fd) := by
  have absent : (none : Option File) ≠ some d.file := nofun
  have installed : w.install fd d.file d.flags =
      some ⟨Function.update w.refs d.file (w.refs d.file + 1), w.table.swap fd (some d)⟩ := by
    simp only [install, set, if_neg absent, incRef, if_neg alive, free,
      map_none, map_some]
  have dropped : decRef (addBit
      ⟨Function.update w.refs d.file (w.refs d.file + 1), w.table.swap fd (some d)⟩ fd) d.file =
      some (addBit ⟨w.refs, w.table.swap fd (some d)⟩ fd) := by
    simp [decRef, addBit]
  simp only [loadEntries, installed, dropped]

theorem World.loadEntries_spec (entries : List (Nat × Descriptor File))
    (distinct : (entries.map Prod.fst).Nodup) (agrees : w.table.Agrees)
    (below : ∀ entry ∈ entries, entry.1 < MaxFdLimit) (alive : ∀ entry ∈ entries, w.refs entry.2.file ≠ 0)
    (free : ∀ entry ∈ entries, w.table.get entry.1 = none) :
    ∃ after, loadEntries entries w = some after ∧ after.refs = w.refs ∧
      after.table.Agrees ∧ (∀ entry ∈ entries, after.table.get entry.1 = some entry.2) ∧
      ∀ g, g ∉ entries.map Prod.fst → after.table.get g = w.table.get g := by
  induction entries generalizing w with
  | nil => exact ⟨w, rfl, rfl, agrees, fun _ member => (nomatch member), fun _ _ => rfl⟩
  | cons entry rest ih =>
    obtain ⟨fd, d⟩ := entry
    obtain ⟨once, distinct⟩ := nodup_cons.mp distinct
    have small := below (fd, d) mem_cons_self
    have here := free (fd, d) mem_cons_self
    have swapped := w.table.get_swap (MaxFdLimit_lt small) (some d)
    let next : World File := addBit ⟨w.refs, w.table.swap fd (some d)⟩ fd
    have entries : ∀ g, next.table.get g = if g = fd then some d else w.table.get g := swapped
    have nextAgrees : next.table.Agrees := agrees.filled small d rfl entries
    have stillFree : ∀ entry ∈ rest, next.table.get entry.1 = none := by
      intro entry member
      have key : entry.1 ∈ rest.map Prod.fst := mem_map_of_mem member
      have different : entry.1 ≠ fd := fun equal => once (equal ▸ key)
      rw [entries, if_neg different]
      exact free entry (mem_cons_of_mem _ member)
    obtain ⟨after, ran, refs, afterAgrees, loaded, others⟩ := ih distinct nextAgrees
      (forall_mem_cons.mp below).2
      (forall_mem_cons.mp alive).2 stillFree
    refine ⟨after, ?_, refs, afterAgrees, ?_, ?_⟩
    · rw [load_entry here (alive (fd, d) mem_cons_self)]
      exact ran
    · intro entry member
      obtain rfl | later := mem_cons.mp member
      · rw [others fd once, entries, if_pos rfl]
      · exact loaded entry later
    · intro g absent
      obtain ⟨different, later⟩ := not_or.mp (mt mem_cons.mpr absent)
      rw [others g later, entries, if_neg different]

theorem World.Sound.load (sound : w.Sound base) {order : List (Nat × Descriptor File)}
    (permuted : order.Perm (w.table.entriesAt (w.table.fdBitmap.ones MaxFdLimit))) :
    ∃ after, w.loadDescriptorTable order = some after ∧ after.Sound base ∧
      ∀ g, after.table.get g = w.table.get g := by
  have entry : ∀ fd d, (fd, d) ∈ order ↔ w.table.get fd = some d := fun fd d =>
    permuted.mem_iff.trans (sound.agrees.mem_entries fd d)
  have distinct : (order.map Prod.fst).Nodup :=
    (permuted.map Prod.fst).nodup_iff.mpr (w.table.entriesAt_nodup (w.table.fdBitmap.ones_nodup MaxFdLimit))
  have alive : ∀ e ∈ order, w.refs e.2.file ≠ 0 := by
    intro e member
    have found := (entry e.1 e.2).mp member
    exact @World.Accounts.alive _ _ _ _ e.1 _ sound.accounts (by simp [fileAt, found])
  have below : ∀ e ∈ order, e.1 < MaxFdLimit := by
    intro e member
    exact sound.agrees.bounded e.1 (by simp [(entry e.1 e.2).mp member])
  obtain ⟨after, ran, refs, agrees, loaded, others⟩ :=
    @loadEntries_spec File _ ⟨w.refs, empty File⟩ order distinct
      agrees_empty below alive fun e _ => get_empty e.1
  have entries : ∀ g, after.table.get g = w.table.get g := by
    intro g
    cases found : w.table.get g with
    | none =>
      have absent : g ∉ order.map Prod.fst := by
        intro member
        obtain ⟨e, inside, rfl⟩ := mem_map.mp member
        rw [(entry e.1 e.2).mp inside] at found
        cases found
      rw [others g absent, get_empty]
    | some d => exact loaded (g, d) ((entry g d).mpr found)
  refine ⟨after, ran, ⟨agrees, fun file => ?_⟩, entries⟩
  rw [refs, naming_congr entries]
  exact sound.accounts file

end BVisor.Descriptors
