import BVisor.Descriptors.FDTable

/-! # Entries, bits and references of one table -/

namespace BVisor.Descriptors

open Function Option World FDTable

variable {File : Type} [DecidableEq File]
variable {t : FDTable File} {w : World File} {base : File → Nat} {fd : Nat} {file : File}
  {d : Descriptor File}

/-! ## The two-level table -/

theorem fd_eq_iff (fd g : Nat) : g / fdsPerBucket = fd / fdsPerBucket ∧ slot g = slot fd ↔ g = fd := by
  simp only [slot, Fin.mk.injEq, fdsPerBucket]
  omega

namespace FDTable

section

omit [DecidableEq File]

theorem grown_length (t : FDTable File) (small : fd < 2 ^ 31) :
    fd / fdsPerBucket < (t.grown (fd / fdsPerBucket)).length := by
  by_cases short : t.slice.length ≤ fd / fdsPerBucket
  · simp only [grown, if_pos short, List.length_append, List.length_replicate]
    have possible : fd / fdsPerBucket < MaxFdLimit := by
      simp only [fdsPerBucket, MaxFdLimit]
      omega
    split
    · split <;> omega
    · omega
  · simp only [grown, if_neg short]
    omega

theorem grown_get (t : FDTable File) (bucketN g : Nat) : get { t with slice := t.grown bucketN } g = t.get g := by
  simp only [grown]
  split
  · simp only [get]
    by_cases inside : g / fdsPerBucket < t.slice.length
    · rw [List.getElem?_append_left inside]
    · rw [List.getElem?_append_right (by omega), List.getElem?_replicate, List.getElem?_eq_none (by omega)]
      split <;> simp_all
  · rfl

theorem get_swap (t : FDTable File) (small : fd < 2 ^ 31) (desc : Option (Descriptor File)) (g : Nat) :
    (t.swap fd desc).get g = if g = fd then desc else t.get g := by
  have inside := t.grown_length small
  rw [← t.grown_get (fd / fdsPerBucket) g]
  by_cases bucket : g / fdsPerBucket = fd / fdsPerBucket
  · have found : (t.swap fd desc).get g =
        Function.update (((t.grown (fd / fdsPerBucket))[fd / fdsPerBucket]?.getD none).getD
          fun _ => none) (slot fd) desc (slot g) := by
      simp only [swap, get, bucket, List.getElem?_set_self inside]
    rw [found]
    by_cases same : g = fd
    · rw [if_pos same, same, update_self]
    have different : slot g ≠ slot fd := fun equal => same ((fd_eq_iff fd g).mp ⟨bucket, equal⟩)
    rw [if_neg same, update_of_ne different]
    simp only [get, bucket]
    cases (t.grown (fd / fdsPerBucket))[fd / fdsPerBucket]? with
    | none => rfl
    | some entry => cases entry <;> rfl
  · have same : g ≠ fd := fun equal => bucket (by rw [equal])
    rw [if_neg same]
    simp only [swap, get, List.getElem?_set_ne (Ne.symm bucket)]

end

/-! ## Who names a file -/

def fileAt (t : FDTable File) (fd : Nat) : Option File :=
  (t.get fd).map Descriptor.file

noncomputable def naming (t : FDTable File) (file : File) : Nat :=
  {fd | t.fileAt fd = some file}.ncard

omit [DecidableEq File] in
theorem get_bounded {g : Nat} (found : t.get g = some d) :
    g < t.slice.length * fdsPerBucket := by
  by_contra outside
  have none : t.slice[g / fdsPerBucket]? = none := by
    apply List.getElem?_eq_none
    simp only [fdsPerBucket] at outside ⊢
    omega
  simp [get, none] at found

omit [DecidableEq File] in
theorem naming_finite (t : FDTable File) (file : File) (p : Nat → Prop) :
    {fd | p fd ∧ t.fileAt fd = some file}.Finite := by
  apply (Set.finite_lt_nat (t.slice.length * fdsPerBucket)).subset
  intro fd member
  obtain ⟨d, found, -⟩ := map_eq_some_iff.mp member.2
  exact get_bounded found

theorem naming_split (t : FDTable File) (file : File) (fd : Nat) :
    t.naming file = {g | g ≠ fd ∧ t.fileAt g = some file}.ncard +
      if t.fileAt fd = some file then 1 else 0 := by
  have finite := t.naming_finite file (· ≠ fd)
  by_cases here : t.fileAt fd = some file
  · have whole : {g | t.fileAt g = some file} =
        insert fd {g | g ≠ fd ∧ t.fileAt g = some file} := by
      ext g
      by_cases same : g = fd
      · simp [same, here]
      · simp [same]
    rw [naming, whole, Set.ncard_insert_of_notMem (by simp) finite, if_pos here]
  · have whole : {g | t.fileAt g = some file} = {g | g ≠ fd ∧ t.fileAt g = some file} := by
      ext g
      by_cases same : g = fd
      · simp [same, here]
      · simp [same]
    rw [naming, whole, if_neg here, Nat.add_zero]

end FDTable

variable {after : FDTable File}

omit [DecidableEq File] in
theorem FDTable.naming_congr (same : ∀ g, after.get g = t.get g)
    (file : File) : after.naming file = t.naming file := by
  simp only [naming, fileAt, same]

theorem FDTable.naming_update {desc : Option (Descriptor File)}
    (changed : ∀ g, after.get g = if g = fd then desc else t.get g) (file : File) :
    after.naming file + (if t.fileAt fd = some file then 1 else 0) =
      t.naming file + if desc.map Descriptor.file = some file then 1 else 0 := by
  have others : {g | g ≠ fd ∧ after.fileAt g = some file} =
      {g | g ≠ fd ∧ t.fileAt g = some file} := by
    ext g
    by_cases same : g = fd
    · simp [same]
    · simp [fileAt, changed, same]
  have here : after.fileAt fd = desc.map Descriptor.file := by
    simp [fileAt, changed]
  rw [after.naming_split file fd, t.naming_split file fd, others, here]
  omega

theorem FDTable.naming_pos (named : t.fileAt fd = some file) : 0 < t.naming file := by
  rw [t.naming_split file fd, if_pos named]
  omega

/-! ## References -/

/-- Each count is what is held elsewhere, and one for each entry that names the file. -/
def World.Accounts (base : File → Nat) (w : World File) : Prop :=
  ∀ file, w.refs file = base file + w.table.naming file

def gain (base : File → Nat) (files : List File) : File → Nat :=
  fun file => base file + files.count file

theorem gain_nil (base : File → Nat) : gain base [] = base := by
  funext file
  simp [gain]

theorem gain_append (base : File → Nat) (first second : List File) :
    gain base (first ++ second) = gain (gain base first) second := by
  funext file
  simp [gain, Nat.add_assoc]

theorem gain_single (base : File → Nat) (file other : File) :
    gain base [file] other = base other + if file = other then 1 else 0 := by
  simp [gain, List.count_singleton]

theorem World.Accounts.alive (accounts : w.Accounts base) (named : w.table.fileAt fd = some file) :
    w.refs file ≠ 0 := by
  have positive := naming_pos named
  rw [accounts file]
  omega

theorem World.Accounts.decRef (accounts : w.Accounts (gain base [file])) :
    ∃ after, w.decRef file = some after ∧ after.Accounts base ∧ after.table = w.table := by
  have positive : w.refs file ≠ 0 := by
    rw [accounts file]
    simp [gain]
  refine ⟨_, if_neg positive, fun other => ?_, rfl⟩
  have before := accounts other
  rw [gain_single] at before
  by_cases same : file = other
  · subst same
    simp only [update_self, if_true] at before ⊢
    omega
  · simp only [update_of_ne (Ne.symm same), if_neg same] at before ⊢
    omega

theorem World.Accounts.decRefs {files : List File} (accounts : w.Accounts (gain base files)) :
    ∃ after, decRefs files w = some after ∧ after.Accounts base ∧ after.table = w.table := by
  induction files generalizing w with
  | nil => exact ⟨w, rfl, by simpa only [gain_nil] using accounts, rfl⟩
  | cons file rest ih =>
    have first : w.Accounts (gain (gain base rest) [file]) := by
      intro other
      rw [accounts other]
      simp only [gain, List.count_cons, List.count_nil]
      omega
    obtain ⟨next, dropped, nextAccounts, sameTable⟩ := first.decRef
    obtain ⟨after, later, afterAccounts, same⟩ := ih nextAccounts
    exact ⟨after, by simp only [decRefs, dropped, later], afterAccounts,
      same.trans sameTable⟩

theorem count_toList (o : Option File) (file : File) : o.toList.count file = if o = some file then 1 else 0 := by
  cases o with
  | none => rfl
  | some other =>
    by_cases same : other = file <;> simp [same]

theorem World.Accounts.set (accounts : w.Accounts base) (small : fd < 2 ^ 31)
    (file : Option File) (flags : FDFlags) (alive : ∀ f ∈ file, w.refs f ≠ 0) :
    ∃ after df, w.set fd file flags = some (after, df) ∧
      after.Accounts (gain base df.toList) ∧
      after.table.fdBitmap = w.table.fdBitmap ∧
      (∀ g, after.table.get g = if g = fd then file.map (⟨·, flags⟩) else w.table.get g) ∧
      df = if w.table.fileAt fd = file then none else w.table.fileAt fd := by
  have entries := w.table.get_swap small (file.map (⟨·, flags⟩))
  have naming := naming_update entries
  cases file with
  | none =>
    refine ⟨⟨w.refs, _⟩, w.table.fileAt fd, rfl, fun other => ?_, rfl, entries, ?_⟩
    · have count := naming other
      simp only [map_none, reduceCtorEq, if_false] at count ⊢
      simp only [accounts other, gain, count_toList]
      omega
    · split <;> simp_all
  | some file =>
    by_cases same : w.table.fileAt fd = some file
    · refine ⟨⟨w.refs, _⟩, none, if_pos same, fun other => ?_, rfl, entries, (if_pos same).symm⟩
      have count := naming other
      simp only [map_some, same] at count
      simp only [accounts other, toList_none, gain_nil]
      simp only [map_some]
      omega
    have positive := alive file rfl
    have taken : w.set fd (some file) flags =
        some (⟨Function.update w.refs file (w.refs file + 1),
          w.table.swap fd (some ⟨file, flags⟩)⟩, w.table.fileAt fd) := by
      have absent : (w.table.get fd).map Descriptor.file ≠ some file := same
      simp only [World.set, map_some, if_neg absent, World.incRef, if_neg positive]
      rfl
    refine ⟨_, _, taken, fun other => ?_, rfl, entries, (if_neg same).symm⟩
    have count := naming other
    simp only [map_some] at count
    simp only [gain, count_toList]
    by_cases here : other = file
    · subst other
      rw [update_self, accounts file]
      simp only [if_true] at count
      omega
    · have different : ¬ some file = some other := by simpa using fun equal => here equal.symm
      rw [update_of_ne here, accounts other]
      simp only [different, if_false] at count
      omega

/-! ## Bits -/

structure FDTable.Agrees (t : FDTable File) : Prop where
  bits : ∀ fd, t.fdBitmap.has fd = (t.get fd).isSome
  counted : t.fdBitmap.Counted
  bounded : ∀ fd, (t.get fd).isSome = true → fd < MaxFdLimit

structure World.Sound (base : File → Nat) (w : World File) : Prop where
  agrees : w.table.Agrees
  accounts : w.Accounts base

namespace FDTable

section

omit [DecidableEq File]

theorem get_empty (fd : Nat) : (empty File).get fd = none := by
  simp [get, empty]

theorem agrees_empty : (empty File).Agrees := by
  constructor
  · intro fd
    rw [get_empty]
    exact Bitmap.has_new 65535 fd
  · exact Bitmap.counted_new 65535
  · intro fd used
    rw [get_empty] at used
    cases used

theorem naming_empty (file : File) : (empty File).naming file = 0 := by
  simp [naming, fileAt, get_empty]

end

end FDTable

theorem MaxFdLimit_lt (below : fd < MaxFdLimit) : fd < 2 ^ 31 := by
  simp only [MaxFdLimit] at below
  omega

section

omit [DecidableEq File]

theorem FDTable.Agrees.update {entry : Option (Descriptor File)}
    (agrees : t.Agrees) (below : entry.isSome = true → fd < MaxFdLimit)
    (bits : ∀ g, after.fdBitmap.has g = if g = fd then entry.isSome else t.fdBitmap.has g)
    (counted : after.fdBitmap.Counted)
    (entries : ∀ g, after.get g = if g = fd then entry else t.get g) : after.Agrees := by
  refine ⟨fun g => ?_, counted, fun g used => ?_⟩
  · rw [bits, entries, agrees.bits]
    split <;> rfl
  · rw [entries] at used
    split at used
    · next here => exact here ▸ below used
    · exact agrees.bounded g used

theorem FDTable.Agrees.filled (agrees : t.Agrees) (below : fd < MaxFdLimit)
    (d : Descriptor File) (bitmap : after.fdBitmap = t.fdBitmap.add fd)
    (entries : ∀ g, after.get g = if g = fd then some d else t.get g) : after.Agrees := by
  refine agrees.update (fun _ => below) (fun g => ?_) (bitmap ▸ agrees.counted.add fd) entries
  rw [bitmap, (t.fdBitmap.add_spec fd).1]
  by_cases same : g = fd <;> simp [same]

theorem FDTable.Agrees.replaced (agrees : t.Agrees)
    (used : (t.get fd).isSome = true) (d : Descriptor File) (bitmap : after.fdBitmap = t.fdBitmap)
    (entries : ∀ g, after.get g = if g = fd then some d else t.get g) : after.Agrees := by
  refine agrees.update (fun _ => agrees.bounded fd used) (fun g => ?_) (bitmap ▸ agrees.counted) entries
  rw [bitmap]
  by_cases same : g = fd
  · rw [if_pos same, same, agrees.bits, used]
    rfl
  · rw [if_neg same]

theorem FDTable.Agrees.cleared (agrees : t.Agrees)
    (used : (t.get fd).isSome = true) (removed : t.fdBitmap.remove fd = some after.fdBitmap)
    (entries : ∀ g, after.get g = if g = fd then none else t.get g) : after.Agrees := by
  have set : t.fdBitmap.has fd = true := (agrees.bits fd).trans used
  obtain ⟨bitmap, result, bits, count⟩ := Bitmap.remove_spec set
  have same : after.fdBitmap = bitmap := Option.some.inj (removed.symm.trans result)
  refine agrees.update (by simp) (fun g => ?_) (same ▸ agrees.counted.remove set bits count) entries
  rw [same, bits]
  by_cases here : g = fd <;> simp [here]

end

omit [DecidableEq File] in
theorem FDTable.Agrees.visited (agrees : t.Agrees) (found : t.get fd = some d) :
    fd ∈ t.fdBitmap.ones MaxFdLimit := by
  have used : (t.get fd).isSome = true := by simp [found]
  exact (Bitmap.mem_ones (by decide)).mpr ⟨(agrees.bits fd).trans used, agrees.bounded fd used⟩

/-! ## Operations on one entry -/

theorem World.install_addBit (w : World File) (fd : Nat) (file : File) (flags : FDFlags) :
    (w.addBit fd).install fd file flags = (w.install fd file flags).map (·.addBit fd) := by
  have set : (w.addBit fd).set fd (some file) flags =
      (w.set fd (some file) flags).map fun r => (r.1.addBit fd, r.2) := by
    have entry : (w.addBit fd).table.get fd = w.table.get fd := rfl
    have count : (w.addBit fd).refs file = w.refs file := rfl
    by_cases same : (w.table.get fd).map Descriptor.file = some file
    · simp only [set, entry, if_pos same]
      rfl
    by_cases gone : w.refs file = 0
    · simp only [set, incRef, entry, count, if_neg same, if_pos gone]
      rfl
    · simp only [set, incRef, entry, count, if_neg same, if_neg gone]
      rfl
  simp only [install, set]
  cases w.set fd (some file) flags with
  | none => rfl
  | some r =>
    obtain ⟨next, df⟩ := r
    cases df <;> rfl

section

variable (sound : w.Sound base)
include sound

theorem World.Sound.install (below : fd < MaxFdLimit)
    (free : w.table.get fd = none) (alive : w.refs file ≠ 0) (flags : FDFlags) :
    ∃ after, w.install fd file flags = some after ∧ (after.addBit fd).Sound base ∧
      ∀ g, after.table.get g = if g = fd then some ⟨file, flags⟩ else w.table.get g := by
  have none : w.table.fileAt fd = none := by simp [fileAt, free]
  obtain ⟨after, df, result, accounts, bitmap, entries, returned⟩ :=
    sound.accounts.set (MaxFdLimit_lt below) (some file) flags (by simpa using alive)
  have nothing : df = Option.none := by simpa [none] using returned
  subst nothing
  refine ⟨after, by simp only [World.install, result], ⟨?_, ?_⟩, entries⟩
  · exact sound.agrees.filled below ⟨file, flags⟩ (by rw [addBit, bitmap]) entries
  · rw [toList_none, gain_nil] at accounts
    exact accounts

theorem World.Sound.zap (small : fd < 2 ^ 31) :
    ∃ after, w.zap fd = some (after, w.table.fileAt fd) ∧
      after.Sound (gain base (w.table.fileAt fd).toList) ∧
      ∀ g, after.table.get g = if g = fd then none else w.table.get g := by
  obtain ⟨after, df, result, accounts, bitmap, entries, returned⟩ := sound.accounts.set small none ⟨false⟩ (by simp)
  have same : df = w.table.fileAt fd := by
    rw [returned]
    split <;> simp_all
  subst same
  have entries : ∀ g, after.table.get g = if g = fd then none else w.table.get g := entries
  cases found : w.table.get fd with
  | none =>
    have nothing : w.table.fileAt fd = none := by simp [fileAt, found]
    rw [nothing] at result accounts ⊢
    have unchanged : ∀ g, after.table.get g = w.table.get g := by
      intro g
      rw [entries]
      split
      · next here => rw [here, found]
      · rfl
    refine ⟨after, by simp only [World.zap, result], ⟨⟨?_, ?_, ?_⟩, accounts⟩, entries⟩
    · simpa only [bitmap, unchanged] using sound.agrees.bits
    · rw [bitmap]
      exact sound.agrees.counted
    · simpa only [unchanged] using sound.agrees.bounded
  | some d =>
    have file : w.table.fileAt fd = some d.file := by simp [fileAt, found]
    have used : (w.table.get fd).isSome = true := by simp [found]
    obtain ⟨cleared, removed, -⟩ := Bitmap.remove_spec ((sound.agrees.bits fd).trans used)
    rw [file] at result accounts ⊢
    have removedBit : after.removeBit fd = some ⟨after.refs, cleared, after.table.slice⟩ := by
      simp only [removeBit, bitmap, removed]
    refine ⟨⟨after.refs, cleared, after.table.slice⟩,
      by simp only [World.zap, result, removedBit], ⟨?_, accounts⟩, entries⟩
    exact sound.agrees.cleared used removed entries

theorem World.Sound.put (below : fd < MaxFdLimit) (alive : w.refs file ≠ 0) (flags : FDFlags) :
    ∃ after df, w.set fd (some file) flags = some (after, df) ∧
      (if df = none then after.addBit fd else after).Sound (gain base df.toList) ∧
      ∀ g, after.table.get g = if g = fd then some ⟨file, flags⟩ else w.table.get g := by
  obtain ⟨after, df, result, accounts, bitmap, entries, returned⟩ :=
    sound.accounts.set (MaxFdLimit_lt below) (some file) flags (by simpa using alive)
  refine ⟨after, df, result, ?_, entries⟩
  by_cases nothing : df = none
  · rw [if_pos nothing]
    refine ⟨?_, accounts⟩
    exact sound.agrees.filled below ⟨file, flags⟩ (by simp only [addBit, bitmap]) entries
  rw [if_neg nothing]
  have used : (w.table.get fd).isSome = true := by
    cases found : w.table.get fd with
    | none => simp [fileAt, found] at returned; exact absurd returned nothing
    | some d => rfl
  exact ⟨sound.agrees.replaced used ⟨file, flags⟩ bitmap entries, accounts⟩

theorem World.Sound.reflag (found : w.table.get fd = some d) (flags : FDFlags) :
    ∃ after, w.set fd (some d.file) flags = some (after, none) ∧ after.Sound base ∧
      after.table.fdBitmap = w.table.fdBitmap ∧
      ∀ g, after.table.get g = if g = fd then some ⟨d.file, flags⟩ else w.table.get g := by
  have used : (w.table.get fd).isSome = true := by simp [found]
  have below := sound.agrees.bounded fd used
  have named : w.table.fileAt fd = some d.file := by simp [fileAt, found]
  obtain ⟨after, df, result, accounts, bitmap, entries, returned⟩ :=
    sound.accounts.set (MaxFdLimit_lt below) (some d.file) flags (by simpa using sound.accounts.alive named)
  rw [if_pos named] at returned
  subst returned
  refine ⟨after, result, ⟨?_, ?_⟩, bitmap, entries⟩
  · exact sound.agrees.replaced used ⟨d.file, flags⟩ bitmap entries
  · simpa only [toList_none, gain_nil] using accounts

end

end BVisor.Descriptors
