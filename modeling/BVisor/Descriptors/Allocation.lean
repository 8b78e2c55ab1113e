import BVisor.Data.LowestFree
import BVisor.Descriptors.Entries

/-! # The descriptors that `NewFDs` gives out -/

namespace BVisor.Descriptors

open Data List Option World

variable {File : Type} [DecidableEq File]
variable {t : FDTable File} {w : World File} {base : File → Nat} {fd minFD max stop : Nat}
variable {files : List File} {flags : FDFlags} {fds : List Nat} {maxFDLimit : Nat}

def FDTable.Taken (t : FDTable File) (fd : Nat) : Prop :=
  (t.get fd).isSome = true

/-- `max` is the end of the descriptors in use, or where the search begins if that is larger. -/
structure SearchEnd (taken : Nat → Prop) (minFD max : Nat) : Prop where
  above : ∀ g, taken g → g < max
  begins : minFD ≤ max
  reached : max = minFD ∨ ∃ last, max = last + 1 ∧ taken last

def nextFD (t : FDTable File) (minFD max : Nat) : Nat :=
  (t.fdBitmap.firstZero minFD).getD max

omit [DecidableEq File] in
/-- The bitmap is searched, and past its end the running maximum is free. -/
theorem FDTable.Agrees.nextFD_lowest (agrees : t.Agrees) (ends : SearchEnd t.Taken minFD max) :
    LowestFree t.Taken minFD (nextFD t minFD max) ∧ nextFD t minFD max ≤ max := by
  have bits : ∀ g, t.Taken g ↔ t.fdBitmap.has g = true := by
    intro g
    rw [FDTable.Taken, agrees.bits]
  have maxFree : ¬ t.Taken max := fun taken => Nat.lt_irrefl max (ends.above max taken)
  have search := t.fdBitmap.firstZero_spec minFD
  simp only [nextFD]
  cases found : t.fdBitmap.firstZero minFD with
  | some z =>
    rw [found] at search
    obtain ⟨above, -, zero, ones⟩ := search
    have lowest : LowestFree t.Taken minFD z :=
      ⟨above, by simp [bits, zero], fun g fromMin toZ => (bits g).mpr (ones g fromMin toZ)⟩
    refine ⟨lowest, ?_⟩
    by_contra beyond
    exact maxFree (lowest.below max ends.begins (Nat.lt_of_not_le beyond))
  | none =>
    rw [found] at search
    refine ⟨⟨ends.begins, maxFree, fun g fromMin toMax => ?_⟩, Nat.le_refl max⟩
    simp only [getD_none] at toMax
    obtain start | ⟨last, next, used⟩ := ends.reached
    · omega
    · have inside := Bitmap.has_lt ((bits last).mp used)
      exact (bits g).mpr (search g fromMin (by omega))

theorem SearchEnd.next {taken after : Nat → Prop} (ends : SearchEnd taken minFD max)
    (lowest : LowestFree taken minFD fd) (within : fd ≤ max) (filled : ∀ g, after g ↔ g = fd ∨ taken g) :
    SearchEnd after fd (if fd = max then fd + 1 else max) := by
  by_cases last : fd = max
  · rw [if_pos last]
    refine ⟨fun g used => ?_, by omega, .inr ⟨fd, rfl, (filled fd).mpr (.inl rfl)⟩⟩
    obtain rfl | before := (filled g).mp used
    · omega
    · have := ends.above g before
      omega
  rw [if_neg last]
  refine ⟨fun g used => ?_, within, .inr ?_⟩
  · obtain rfl | before := (filled g).mp used
    · omega
    · exact ends.above g before
  · obtain start | ⟨largest, next, used⟩ := ends.reached
    · have := lowest.above
      omega
    · exact ⟨largest, next, (filled largest).mpr (.inr used)⟩

structure Installed (before after : FDTable File) (fds : List Nat) (files : List File)
    (flags : FDFlags) : Prop where
  entries : ∀ pair ∈ fds.zip files, after.get pair.1 = some ⟨pair.2, flags⟩
  others : ∀ g, g ∉ fds → after.get g = before.get g

structure Allocates (w : World File) (base : File → Nat) (minFD stop : Nat) (files : List File)
    (flags : FDFlags) (after : World File) (fds : List Nat) : Prop where
  sound : after.Sound base
  length : fds.length ≤ files.length
  lowest : LowestFrom w.table.Taken minFD fds
  bounded : ∀ fd ∈ fds, fd < stop
  installed : Installed w.table after.table fds files flags
  stuck : fds.length < files.length →
    ∃ n, LowestFree w.table.Taken (searchFrom minFD fds) n ∧ stop ≤ n

theorem World.newFDsLoop_cons (file : File) (w : World File) (minFD max : Nat) :
    newFDsLoop flags stop (file :: files) minFD max w =
      let fd := nextFD w.table minFD max
      if stop ≤ fd then
        some (w, [])
      else
        match (w.addBit fd).install fd file flags with
        | none => none
        | some next =>
          (newFDsLoop flags stop files fd (if fd = max then fd + 1 else max) next).map
            fun r => (r.1, fd :: r.2) := by
  cases found : w.table.fdBitmap.firstZero minFD with
  | none =>
    have different : max ≠ max + 1 := by omega
    simp only [newFDsLoop, nextFD, found, getD_none, if_neg different, if_true]
    cases (w.addBit max).install max file flags with
    | none => rfl
    | some next =>
      dsimp only
      cases newFDsLoop flags stop files max (max + 1) next <;> rfl
  | some z =>
    simp only [newFDsLoop, nextFD, found, getD_some]
    cases (w.addBit z).install z file flags with
    | none => rfl
    | some next =>
      dsimp only
      cases newFDsLoop flags stop files z (if z = max then z + 1 else max) next <;> rfl

theorem World.Sound.newFDsLoop (sound : w.Sound base) (ends : SearchEnd w.table.Taken minFD max)
    (possible : stop ≤ MaxFdLimit) (held : ∀ file ∈ files, 0 < base file) (flags : FDFlags) :
    ∃ after fds, newFDsLoop flags stop files minFD max w = some (after, fds) ∧
      Allocates w base minFD stop files flags after fds := by
  induction files generalizing w minFD max with
  | nil =>
    exact ⟨w, [], rfl, sound, Nat.le_refl 0, trivial, fun _ member => (nomatch member),
      ⟨fun _ member => (nomatch member), fun _ _ => rfl⟩, fun short => (nomatch short)⟩
  | cons file rest ih =>
    obtain ⟨lowest, within⟩ := sound.agrees.nextFD_lowest ends
    rw [newFDsLoop_cons]
    generalize nextFD w.table minFD max = fd at lowest within
    by_cases full : stop ≤ fd
    · refine ⟨w, [], if_pos full, sound, Nat.zero_le _, trivial, fun _ member => (nomatch member),
        ⟨fun _ member => (nomatch member), fun _ _ => rfl⟩, fun _ => ⟨fd, lowest, full⟩⟩
    have free : w.table.get fd = none := by
      simpa [FDTable.Taken] using lowest.free
    have alive : w.refs file ≠ 0 := by
      have := held file mem_cons_self
      rw [sound.accounts file]
      omega
    obtain ⟨installed, result, nextSound, entries⟩ :=
      sound.install (show fd < MaxFdLimit by omega) free alive flags
    have taken : ∀ g, (installed.addBit fd).table.Taken g ↔ g = fd ∨ w.table.Taken g := by
      intro g
      have : (installed.addBit fd).table.get g = installed.table.get g := rfl
      rw [FDTable.Taken, this, entries]
      by_cases same : g = fd <;> simp [same, FDTable.Taken]
    have nextEnds := ends.next lowest within taken
    obtain ⟨after, fds, ran, allocates⟩ := ih nextSound nextEnds
      (forall_mem_cons.mp held).2
    have occupied : (installed.addBit fd).table.Taken fd := (taken fd).mpr (.inl rfl)
    have agree : ∀ k, fd < k → ((installed.addBit fd).table.Taken k ↔ w.table.Taken k) := by
      intro k beyond
      rw [taken]
      exact or_iff_right (by omega)
    have tail := allocates.lowest.next occupied agree
    have fresh : fd ∉ fds := by
      intro member
      have := tail.above fd member
      omega
    refine ⟨after, fd :: fds, ?_, allocates.sound, ?_, ⟨lowest, tail⟩, ?_, ⟨?_, ?_⟩, ?_⟩
    · simp only [if_neg full, install_addBit, result, map_some, ran]
    · simpa using allocates.length
    · intro other member
      obtain rfl | later := mem_cons.mp member
      · omega
      · exact allocates.bounded other later
    · intro pair member
      rw [zip_cons_cons] at member
      obtain rfl | later := mem_cons.mp member
      · rw [allocates.installed.others fd fresh]
        exact (entries fd).trans (if_pos rfl)
      · exact allocates.installed.entries pair later
    · intro g absent
      obtain ⟨different, later⟩ := not_or.mp (mt mem_cons.mpr absent)
      rw [allocates.installed.others g later]
      exact (entries g).trans (if_neg different)
    · intro short
      obtain ⟨n, next, out⟩ := allocates.stuck (by simpa using short)
      rw [searchFrom_cons]
      exact ⟨n, next.searchNext tail occupied agree, out⟩

/-! ## Unwinding -/

theorem gain_cons (base : File → Nat) (file : File) (files : List File) :
    gain base (file :: files) = gain (gain base [file]) files :=
  gain_append base [file] files

theorem World.unwind_cons {next : World File} {file : File} (zapped : w.zap fd = some (next, some file)) :
    unwind (fd :: fds) w = unwind fds next := by
  simp only [zap] at zapped
  simp only [unwind]
  split at zapped
  · cases zapped
  · cases zapped
  · next cleared df result =>
    split at zapped
    · cases zapped
    · next removed =>
      cases zapped
      simp only [result, removed]

theorem World.Sound.unwind (sound : w.Sound base) (distinct : fds.Nodup) (length : fds.length = files.length)
    (entries : ∀ pair ∈ fds.zip files, w.table.fileAt pair.1 = some pair.2) :
    ∃ after, unwind fds w = some after ∧ after.Sound (gain base files) ∧
      ∀ g, after.table.get g = if g ∈ fds then none else w.table.get g := by
  induction fds generalizing w base files with
  | nil =>
    have empty : files = [] := eq_nil_of_length_eq_zero length.symm
    subst empty
    exact ⟨w, rfl, by rwa [gain_nil], fun g => by simp⟩
  | cons fd rest ih =>
    cases files with
    | nil => cases length
    | cons file files =>
      obtain ⟨fresh, distinct⟩ := nodup_cons.mp distinct
      have named : w.table.fileAt fd = some file := entries (fd, file) mem_cons_self
      have used : (w.table.get fd).isSome = true := by
        cases found : w.table.get fd with
        | none => simp [FDTable.fileAt, found] at named
        | some d => rfl
      obtain ⟨next, zapped, nextSound, cleared⟩ := sound.zap (MaxFdLimit_lt (sound.agrees.bounded fd used))
      rw [named] at zapped nextSound
      have others : ∀ pair ∈ rest.zip files, next.table.fileAt pair.1 = some pair.2 := by
        intro pair member
        have different : pair.1 ≠ fd := by
          intro equal
          exact fresh (equal ▸ (of_mem_zip member).1)
        rw [FDTable.fileAt, cleared, if_neg different]
        exact entries pair (mem_cons_of_mem _ member)
      obtain ⟨after, unwound, afterSound, final⟩ := ih nextSound distinct (Nat.succ.inj length) others
      refine ⟨after, (unwind_cons zapped).trans unwound, ?_, fun g => ?_⟩
      · rw [gain_cons]
        exact afterSound
      · rw [final, cleared]
        by_cases same : g = fd
        · simp [same]
        · simp [same]

/-! ## The call -/

/-- The early check refuses only requests that do not fit between `minFD` and the limit. -/
theorem lt_of_lt_int32 {minFD : Int} {length : Nat} (lower : 0 ≤ minFD) (upper : minFD < 2 ^ 31)
    (refused : (stop : Int) < int32 (minFD + int32 length)) : (stop : Int) < minFD + length := by
  have wrapped : int32 length ≤ length ∧ -2 ^ 31 ≤ int32 length ∧ int32 length < 2 ^ 31 := by
    simp only [int32, Int.bmod_def]
    split <;> omega
  have sum : int32 (minFD + int32 length) ≤ minFD + int32 length ∨
      int32 (minFD + int32 length) < 0 := by
    generalize int32 length = n at wrapped
    simp only [int32, Int.bmod_def]
    split <;> omega
  omega

omit [DecidableEq File] in
theorem FDTable.Agrees.searchEnd (agrees : t.Agrees) (minFD : Nat) :
    let used := if t.fdBitmap.isEmpty then 0 else t.fdBitmap.maximum + 1
    SearchEnd t.Taken minFD (if used < minFD then minFD else used) := by
  have bits : ∀ g, t.Taken g ↔ t.fdBitmap.has g = true := by
    intro g
    rw [FDTable.Taken, agrees.bits]
  have empty := agrees.counted.isEmpty_iff
  by_cases none : t.fdBitmap.isEmpty = true
  · have free : ∀ g, ¬ t.Taken g := by
      intro g
      rw [bits, empty.mp none g]
      exact Bool.false_ne_true
    simp only [if_pos none]
    refine ⟨fun g used => absurd used (free g), ?_, .inl ?_⟩ <;> split <;> omega
  obtain ⟨some, set⟩ : ∃ g, t.fdBitmap.has g = true := by
    by_contra absent
    exact none (empty.mpr fun g => by simpa using not_exists.mp absent g)
  obtain ⟨last, largest⟩ := Bitmap.maximum_spec ⟨some, set⟩
  simp only [none, Bool.false_eq_true, if_false]
  have above : ∀ g, t.Taken g → g ≤ t.fdBitmap.maximum := fun g used =>
    largest g ((bits g).mp used)
  split
  · refine ⟨fun g used => ?_, Nat.le_refl minFD, .inl rfl⟩
    have := above g used
    omega
  · refine ⟨fun g used => ?_, by omega, .inr ⟨_, rfl, (bits _).mpr last⟩⟩
    have := above g used
    omega

/-- What `NewFDs` returns, and what it has done. -/
inductive NewFDsResult (w : World File) (minFD : Int) (files : List File) (flags : FDFlags)
    (stop : Nat) (after : World File) : Except Errno (List Nat) → Prop
  | installed {fds : List Nat} (valid : 0 ≤ minFD) (length : fds.length = files.length)
      (lowest : LowestFrom w.table.Taken minFD.toNat fds) (bounded : ∀ fd ∈ fds, fd < stop)
      (possible : files = [] → minFD ≤ stop)
      (installed : Installed w.table after.table fds files flags) :
      NewFDsResult w minFD files flags stop after (.ok fds)
  | negative (invalid : minFD < 0) (unchanged : after = w) :
      NewFDsResult w minFD files flags stop after (.error .EINVAL)
  | exhausted (valid : 0 ≤ minFD)
      (short : (freeIn w.table.Taken minFD.toNat stop).ncard < files.length ∨
        files = [] ∧ stop < minFD)
      (entries : ∀ g, after.table.get g = w.table.get g) (refs : after.refs = w.refs)
      (bits : ∀ g, after.table.fdBitmap.has g = w.table.fdBitmap.has g)
      (count : after.table.fdBitmap.numOnes = w.table.fdBitmap.numOnes) :
      NewFDsResult w minFD files flags stop after (.error .EMFILE)

omit [DecidableEq File] in
theorem World.Accounts.refs_congr {after : World File} (accounts : w.Accounts base)
    (later : after.Accounts base) (entries : ∀ g, after.table.get g = w.table.get g) :
    after.refs = w.refs := by
  funext file
  rw [later file, accounts file, FDTable.naming_congr entries]

omit [DecidableEq File] in
theorem FDTable.Agrees.bits_congr {after : FDTable File} (agrees : t.Agrees)
    (later : after.Agrees) (entries : ∀ g, after.get g = t.get g) (g : Nat) :
    after.fdBitmap.has g = t.fdBitmap.has g := by
  rw [later.bits, agrees.bits, entries]

theorem zip_take {α β : Type} (as : List α) (bs : List β) : as.zip (bs.take as.length) = as.zip bs := by
  induction as generalizing bs with
  | nil => rfl
  | cons a rest ih =>
    cases bs with
    | nil => rfl
    | cons b more => simp [ih]

theorem limit_le (possible : maxFDLimit ≤ MaxFdLimit) (cur : Option UInt64) :
    limit maxFDLimit cur ≤ MaxFdLimit := by
  simp only [limit]
  split
  · exact possible
  · split <;> omega

theorem World.Sound.newFDs (sound : w.Sound base) {minFD : Int} (upper : minFD < 2 ^ 31)
    (possible : maxFDLimit ≤ MaxFdLimit) (cur : Option UInt64)
    (held : ∀ file ∈ files, 0 < base file) (flags : FDFlags) :
    ∃ after result, w.newFDs minFD files flags maxFDLimit cur = some (after, result) ∧
      after.Sound base ∧
      NewFDsResult w minFD files flags (limit maxFDLimit cur) after result := by
  have below := limit_le possible cur
  simp only [World.newFDs]
  generalize limit maxFDLimit cur = stop at below
  by_cases negative : minFD < 0
  · rw [if_pos negative]
    exact ⟨w, _, rfl, sound, .negative negative rfl⟩
  rw [if_neg negative]
  have valid : 0 ≤ minFD := by omega
  by_cases refused : (stop : Int) < int32 (minFD + int32 files.length)
  · rw [if_pos refused]
    have short := lt_of_lt_int32 valid upper refused
    have free := freeIn_card_le w.table.Taken minFD.toNat stop
    refine ⟨w, _, rfl, sound, .exhausted valid ?_ (fun _ => rfl) rfl (fun _ => rfl) rfl⟩
    by_cases none : files = []
    · subst none
      exact .inr ⟨rfl, by simpa using short⟩
    · have : 0 < files.length := length_pos_of_ne_nil none
      exact .inl (by omega)
  rw [if_neg refused]
  have ends := sound.agrees.searchEnd minFD.toNat
  obtain ⟨installed, fds, ran, allocates⟩ := sound.newFDsLoop ends below held flags
  rw [ran]
  by_cases short : fds.length < files.length
  · simp only [if_pos short]
    have length : fds.length = (files.take fds.length).length := by
      rw [length_take]
      omega
    have named : ∀ pair ∈ fds.zip (files.take fds.length),
        installed.table.fileAt pair.1 = some pair.2 := by
      intro pair member
      rw [zip_take] at member
      rw [FDTable.fileAt, allocates.installed.entries pair member]
      rfl
    obtain ⟨unwound, unwinds, unwoundSound, cleared⟩ := allocates.sound.unwind
      (allocates.lowest.increasing.imp Nat.ne_of_lt) length named
    obtain ⟨after, drops, accounts, table⟩ := unwoundSound.accounts.decRefs
    have entries : ∀ g, after.table.get g = w.table.get g := by
      intro g
      rw [table, cleared]
      split
      · next member =>
        exact (not_isSome_iff_eq_none.mp (allocates.lowest.free g member)).symm
      · next absent => exact allocates.installed.others g absent
    have agrees : after.table.Agrees := table ▸ unwoundSound.agrees
    have bits := sound.agrees.bits_congr agrees entries
    obtain ⟨n, lowest, out⟩ := allocates.stuck short
    have free := allocates.lowest.exhausted lowest out
    refine ⟨after, .error .EMFILE, by simp only [unwinds, drops], ⟨agrees, accounts⟩, ?_⟩
    refine .exhausted valid (.inl (by omega)) entries (sound.accounts.refs_congr accounts entries) bits ?_
    rw [agrees.counted, sound.agrees.counted]
    simp only [bits]
  · simp only [if_neg short]
    have length := allocates.length
    refine ⟨installed, .ok fds, rfl, allocates.sound, .installed valid (by omega)
      allocates.lowest allocates.bounded (fun none => ?_) allocates.installed⟩
    subst none
    have plain : int32 (minFD + int32 ((([] : List File).length : Nat) : Int)) = minFD := by
      simp only [length_nil, int32, Int.bmod_def]
      split <;> split <;> omega
    rw [plain] at refused
    omega

end BVisor.Descriptors
