import BVisor.Auth.UserNamespace

/-! The calls by which a task sets its user and group IDs, against setuid(2), setreuid(2) and
setresuid(2). -/

namespace BVisor.Auth.Identity

structure IDs where
  real : Nat
  effective : Nat
  saved : Nat
  deriving DecidableEq

def IDs.all (ids : IDs) : List Nat :=
  [ids.real, ids.effective, ids.saved]

def IDs.has (ids : IDs) (kid : Nat) : Bool :=
  ids.real == kid || ids.effective == kid || ids.saved == kid

/-- A task with its credentials; the user namespace is given with its ancestors. -/
structure Task where
  line : List UserNamespace
  kuids : IDs
  kgids : IDs
  permittedCaps : BitVec 64
  effectiveCaps : BitVec 64
  ambientCaps : BitVec 64
  keepCaps : Bool
  dumpable : Bool
  parentDeathSignal : Nat
  deriving DecidableEq

/-- The new ID for an argument that may be -1, which leaves the ID as it is. -/
def given (toKID : Nat → Nat) (id old : Nat) : Nat :=
  if id = noID then old else toKID id

namespace Task

variable (t : Task) (kind : Kind)

def ids : IDs :=
  match kind with
  | .uid => t.kuids
  | .gid => t.kgids

def mapToKID (id : Nat) : Nat :=
  Auth.mapToKID kind id t.line

/-- `HasSelfCapability` for `CAP_SETUID` or `CAP_SETGID`. -/
def privileged : Bool :=
  match kind with
  | .uid => 1#64 <<< capSetuid &&& t.effectiveCaps != 0
  | .gid => 1#64 <<< capSetgid &&& t.effectiveCaps != 0

def effectiveChanged (old new : IDs) : Task :=
  if old.effective ≠ new.effective then { t with dumpable := false, parentDeathSignal := 0 } else t

def leaveRoot (root : Nat) (old new : IDs) : Task :=
  if old.has root && !new.has root then
    if t.keepCaps then { t with ambientCaps := 0 }
    else { t with ambientCaps := 0, permittedCaps := 0, effectiveCaps := 0 }
  else t

def switchCaps (root : Nat) (old new : IDs) : Task :=
  if old.effective = root ∧ new.effective ≠ root then { t with effectiveCaps := 0 }
  else if old.effective ≠ root ∧ new.effective = root then { t with effectiveCaps := t.permittedCaps }
  else t

def setKUIDsUnchecked (new : IDs) : Task :=
  let root := t.mapToKID .uid 0
  let changed := (({ t with kuids := new }).leaveRoot root t.kuids new).switchCaps root t.kuids new
  changed.effectiveChanged t.kuids new

def setKGIDsUnchecked (new : IDs) : Task :=
  ({ t with kgids := new }).effectiveChanged t.kgids new

def setKIDsUnchecked (new : IDs) : Task :=
  match kind with
  | .uid => t.setKUIDsUnchecked new
  | .gid => t.setKGIDsUnchecked new

/-! The calls: the error, if any, and the task afterwards. -/

def setID (id : Nat) : Option Errno × Task :=
  if id = noID then (some .einval, t)
  else
    let kid := t.mapToKID kind id
    if kid = noID then (some .einval, t)
    else if t.privileged kind then (none, t.setKIDsUnchecked kind ⟨kid, kid, kid⟩)
    else if kid ≠ (t.ids kind).real ∧ kid ≠ (t.ids kind).saved then (some .eperm, t)
    else (none, t.setKIDsUnchecked kind ⟨(t.ids kind).real, kid, (t.ids kind).saved⟩)

def setREID (r e : Nat) : Option Errno × Task :=
  let ids := t.ids kind
  let newR := given (t.mapToKID kind) r ids.real
  if r ≠ noID ∧ newR = noID then (some .einval, t)
  else
    let newE := given (t.mapToKID kind) e ids.effective
    if e ≠ noID ∧ newE = noID then (some .einval, t)
    else if t.privileged kind = false ∧ (newE ≠ ids.real ∧ newE ≠ ids.effective ∧ newE ≠ ids.saved) then
      (some .eperm, t)
    else if t.privileged kind = false ∧ (newR ≠ ids.real ∧ newR ≠ ids.effective) then (some .eperm, t)
    else
      let newS := if r ≠ noID ∨ (e ≠ noID ∧ newE ≠ ids.effective) then newE else ids.saved
      (none, t.setKIDsUnchecked kind ⟨newR, newE, newS⟩)

/-- An argument of `SetRESUID` or `SetRESGID`, if it is given. -/
def useID (id old : Nat) : Except Errno Nat :=
  let ids := t.ids kind
  let kid := t.mapToKID kind id
  if id = noID then .ok old
  else if kid = noID then .error .einval
  else if t.privileged kind then .ok kid
  else if kid = ids.real ∨ kid = ids.effective ∨ kid = ids.saved then .ok kid
  else .error .eperm

def setRESID (r e s : Nat) : Option Errno × Task :=
  match t.useID kind r (t.ids kind).real with
  | .error errno => (some errno, t)
  | .ok newR =>
    match t.useID kind e (t.ids kind).effective with
    | .error errno => (some errno, t)
    | .ok newE =>
      match t.useID kind s (t.ids kind).saved with
      | .error errno => (some errno, t)
      | .ok newS => (none, t.setKIDsUnchecked kind ⟨newR, newE, newS⟩)

def setUID := t.setID .uid

def setGID := t.setID .gid

def setREUID := t.setREID .uid

def setREGID := t.setREID .gid

def setRESUID := t.setRESID .uid

def setRESGID := t.setRESID .gid

end Task

inductive Call where
  | setID (id : Nat)
  | setREID (r e : Nat)
  | setRESID (r e s : Nat)

def Task.perform (t : Task) : Kind → Call → Option Errno × Task
  | .uid, .setID id => t.setUID id
  | .uid, .setREID r e => t.setREUID r e
  | .uid, .setRESID r e s => t.setRESUID r e s
  | .gid, .setID id => t.setGID id
  | .gid, .setREID r e => t.setREGID r e
  | .gid, .setRESID r e s => t.setRESGID r e s

/-! The manual pages. -/

section Manual

variable (privileged : Bool) (toKID : Nat → Nat) (ids : IDs)

/-- The ID `id`, if it is given, has a mapping and is among those the caller may use. -/
def Usable (id : Nat) (own : List Nat) : Prop :=
  id ≠ noID → toKID id ≠ noID ∧ (privileged = true ∨ toKID id ∈ own)

def Call.Permitted : Call → Prop
  | .setID id => id ≠ noID ∧ Usable privileged toKID id [ids.real, ids.saved]
  | .setREID r e => Usable privileged toKID r [ids.real, ids.effective] ∧
      Usable privileged toKID e ids.all
  | .setRESID r e s => ∀ id ∈ [r, e, s], Usable privileged toKID id ids.all

def Call.prescribed : Call → IDs
  | .setID id =>
    if privileged then ⟨toKID id, toKID id, toKID id⟩ else { ids with effective := toKID id }
  | .setREID r e =>
    let effective := given toKID e ids.effective
    ⟨given toKID r ids.real, effective,
      if r ≠ noID ∨ (e ≠ noID ∧ effective ≠ ids.real) then effective else ids.saved⟩
  | .setRESID r e s =>
    ⟨given toKID r ids.real, given toKID e ids.effective, given toKID s ids.saved⟩

/-- An effective ID that is given alone equals the real ID exactly if it equals the effective one,
or it is the saved ID already. -/
def Call.Unambiguous : Call → Prop
  | .setREID r e => r = noID → e ≠ noID →
      (toKID e = ids.real ↔ toKID e = ids.effective) ∨ toKID e = ids.saved
  | _ => True

end Manual

/-! The calls against the manual pages. -/

variable {t : Task} {kind : Kind} {call : Call} {new : IDs}

def Task.Permits (t : Task) (kind : Kind) (call : Call) : Prop :=
  call.Permitted (t.privileged kind) (t.mapToKID kind) (t.ids kind)

def Task.prescribed (t : Task) (kind : Kind) (call : Call) : IDs :=
  call.prescribed (t.privileged kind) (t.mapToKID kind) (t.ids kind)

/-- The call is granted exactly if it is permitted, it sets the IDs of its kind as prescribed and no
others, and nothing changes if it is refused. -/
structure Follows (t : Task) (kind : Kind) (call : Call) (result : Option Errno × Task) : Prop where
  granted : result.1 = none ↔ t.Permits kind call
  ids : result.1 = none → ∀ other, result.2.ids other = if other = kind then t.prescribed kind call else t.ids other
  refused : result.1 ≠ none → result.2 = t

theorem effectiveChanged_ids (old : IDs) : (t.effectiveChanged old new).ids = t.ids := by
  unfold Task.effectiveChanged
  split <;> rfl

theorem leaveRoot_ids (root : Nat) (old : IDs) : (t.leaveRoot root old new).ids = t.ids := by
  unfold Task.leaveRoot
  split
  · split <;> rfl
  · rfl

theorem switchCaps_ids (root : Nat) (old : IDs) : (t.switchCaps root old new).ids = t.ids := by
  unfold Task.switchCaps
  split
  · rfl
  · split <;> rfl

theorem setKIDsUnchecked_ids (other : Kind) :
    (t.setKIDsUnchecked kind new).ids other = if other = kind then new else t.ids other := by
  cases kind with
  | uid =>
    simp only [Task.setKIDsUnchecked, Task.setKUIDsUnchecked]
    rw [effectiveChanged_ids, switchCaps_ids, leaveRoot_ids]
    cases other <;> rfl
  | gid =>
    simp only [Task.setKIDsUnchecked, Task.setKGIDsUnchecked]
    rw [effectiveChanged_ids]
    cases other <;> rfl

theorem Follows.refuse {errno : Errno} (refused : ¬ t.Permits kind call) : Follows t kind call (some errno, t) :=
  ⟨⟨nofun, fun permitted => absurd permitted refused⟩, nofun, fun _ => rfl⟩

theorem Follows.grant_iff (permitted : t.Permits kind call) :
    Follows t kind call (none, t.setKIDsUnchecked kind new) ↔ new = t.prescribed kind call := by
  constructor
  · intro follows
    have set := follows.ids rfl kind
    rw [setKIDsUnchecked_ids, if_pos rfl, if_pos rfl] at set
    exact set
  · rintro rfl
    exact ⟨⟨fun _ => permitted, fun _ => rfl⟩, fun _ other => setKIDsUnchecked_ids other, nofun⟩

theorem Follows.grant (permitted : t.Permits kind call) (same : new = t.prescribed kind call) :
    Follows t kind call (none, t.setKIDsUnchecked kind new) :=
  (grant_iff permitted).mpr same

/-- An ID that is not given is one of the caller's own, so the tests may be made on the new ID. -/
theorem usable_iff (privileged : Bool) (toKID : Nat → Nat) (id : Nat) {old : Nat} {own : List Nat}
    (mine : old ∈ own) : Usable privileged toKID id own ↔
      ¬ (id ≠ noID ∧ given toKID id old = noID) ∧ (privileged = true ∨ given toKID id old ∈ own) := by
  unfold Usable given
  by_cases missing : id = noID
  · simp [missing, mine]
  · simp [missing]

theorem useID_cases (t : Task) (kind : Kind) (id old : Nat) :
    (∃ errno, t.useID kind id old = .error errno ∧
      ¬ Usable (t.privileged kind) (t.mapToKID kind) id (t.ids kind).all) ∨
    t.useID kind id old = .ok (given (t.mapToKID kind) id old) ∧
      Usable (t.privileged kind) (t.mapToKID kind) id (t.ids kind).all := by
  unfold Task.useID given
  by_cases missing : id = noID
  · exact .inr ⟨by simp [missing], fun present => absurd missing present⟩
  simp only [if_neg missing]
  split
  next unmapped => exact .inl ⟨_, rfl, fun usable => (usable missing).1 unmapped⟩
  next mapped =>
    split
    next privileged => exact .inr ⟨rfl, fun _ => ⟨mapped, .inl privileged⟩⟩
    next unprivileged =>
      split
      next own => exact .inr ⟨rfl, fun _ => ⟨mapped, .inr (by simpa [IDs.all] using own)⟩⟩
      next foreign =>
        refine .inl ⟨_, rfl, fun usable => ?_⟩
        rcases (usable missing).2 with privileged | own
        · exact unprivileged privileged
        · exact foreign (by simpa [IDs.all] using own)

theorem setID_follows (id : Nat) : Follows t kind (.setID id) (t.setID kind id) := by
  unfold Task.setID
  split
  next missing => exact .refuse fun permitted => permitted.1 missing
  next present =>
    dsimp only
    split
    next unmapped => exact .refuse fun permitted => (permitted.2 present).1 unmapped
    next mapped =>
      split
      next privileged =>
        refine .grant ⟨present, fun _ => ⟨mapped, .inl privileged⟩⟩ ?_
        rw [Task.prescribed, Call.prescribed, if_pos privileged]
      next unprivileged =>
        split
        next foreign =>
          refine .refuse fun permitted => ?_
          rcases (permitted.2 present).2 with privileged | own
          · exact unprivileged privileged
          · grind
        next own =>
          refine .grant ⟨present, fun _ => ⟨mapped, .inr (by grind)⟩⟩ ?_
          rw [Task.prescribed, Call.prescribed, if_neg unprivileged]

theorem setREID_cases (t : Task) (kind : Kind) (r e : Nat) :
    (¬ t.Permits kind (.setREID r e) ∧ ∃ errno, t.setREID kind r e = (some errno, t)) ∨
    (t.Permits kind (.setREID r e) ∧
      let effective := given (t.mapToKID kind) e (t.ids kind).effective
      t.setREID kind r e = (none, t.setKIDsUnchecked kind
        ⟨given (t.mapToKID kind) r (t.ids kind).real, effective,
          if r ≠ noID ∨ (e ≠ noID ∧ effective ≠ (t.ids kind).effective) then effective
          else (t.ids kind).saved⟩)) := by
  have real := usable_iff (t.privileged kind) (t.mapToKID kind) r
    (show (t.ids kind).real ∈ [(t.ids kind).real, (t.ids kind).effective] by simp)
  have effective := usable_iff (t.privileged kind) (t.mapToKID kind) e
    (show (t.ids kind).effective ∈ (t.ids kind).all by simp [IDs.all])
  unfold Task.setREID
  dsimp only
  split
  next unmapped => exact .inl ⟨fun permitted => (real.mp permitted.1).1 unmapped, _, rfl⟩
  next realMapped =>
    split
    next unmapped => exact .inl ⟨fun permitted => (effective.mp permitted.2).1 unmapped, _, rfl⟩
    next effectiveMapped =>
      split
      next foreign =>
        refine .inl ⟨fun permitted => ?_, _, rfl⟩
        have allowed := (effective.mp permitted.2).2
        grind [IDs.all]
      next effectiveOwn =>
        split
        next foreign =>
          refine .inl ⟨fun permitted => ?_, _, rfl⟩
          have allowed := (real.mp permitted.1).2
          grind
        next realOwn =>
          refine .inr ⟨⟨real.mpr ⟨realMapped, ?_⟩, effective.mpr ⟨effectiveMapped, ?_⟩⟩, rfl⟩
          · grind
          · grind [IDs.all]

theorem setREID_follows_iff (r e : Nat) :
    Follows t kind (.setREID r e) (t.setREID kind r e) ↔
      (t.Permits kind (.setREID r e) →
        (Call.setREID r e).Unambiguous (t.mapToKID kind) (t.ids kind)) := by
  obtain ⟨forbidden, errno, refused⟩ | ⟨permitted, granted⟩ := setREID_cases t kind r e
  · rw [refused]
    exact iff_of_true (.refuse forbidden) fun permitted => absurd permitted forbidden
  rw [granted, Follows.grant_iff permitted]
  simp only [permitted, true_imp_iff, Task.prescribed, Call.prescribed, Call.Unambiguous,
    IDs.mk.injEq, true_and]
  -- both triples end with the new effective ID, both with the old saved ID, or one with each
  by_cases alone : r = noID ∧ e ≠ noID
  · simp only [given, alone, if_false, ne_eq, not_true_eq_false, false_or, not_false_eq_true, true_and]
    grind
  · grind

theorem setRESID_follows (r e s : Nat) : Follows t kind (.setRESID r e s) (t.setRESID kind r e s) := by
  unfold Task.setRESID
  rcases useID_cases t kind r (t.ids kind).real with ⟨errno, failed, foreign⟩ | ⟨found, real⟩
  · rw [failed]
    exact .refuse fun permitted => foreign (permitted r (by simp))
  rw [found]
  dsimp only
  rcases useID_cases t kind e (t.ids kind).effective with
    ⟨errno, failed, foreign⟩ | ⟨found, effective⟩
  · rw [failed]
    exact .refuse fun permitted => foreign (permitted e (by simp))
  rw [found]
  dsimp only
  rcases useID_cases t kind s (t.ids kind).saved with
    ⟨errno, failed, foreign⟩ | ⟨found, saved⟩
  · rw [failed]
    exact .refuse fun permitted => foreign (permitted s (by simp))
  rw [found]
  refine .grant ?_ rfl
  intro id member
  simp only [List.mem_cons, List.not_mem_nil, or_false] at member
  rcases member with rfl | rfl | rfl
  · exact real
  · exact effective
  · exact saved

/-- Every call follows its manual page exactly if it is refused or its effective ID is not given
alone, equal to only one of the real and the effective ID and different from the saved ID. -/
theorem identity_follows_manual (t : Task) (kind : Kind) (call : Call) :
    Follows t kind call (t.perform kind call) ↔
      (t.Permits kind call → call.Unambiguous (t.mapToKID kind) (t.ids kind)) := by
  cases call with
  | setID id => cases kind <;> exact iff_of_true (setID_follows id) fun _ => trivial
  | setREID r e => cases kind <;> exact setREID_follows_iff r e
  | setRESID r e s => cases kind <;> exact iff_of_true (setRESID_follows r e s) fun _ => trivial

/-- A task in the root user namespace. -/
def task (kuids : IDs) : Task :=
  ⟨[], kuids, ⟨0, 0, 0⟩, 0, 0, 0, false, true, 0⟩

/-- With the real ID 1 and the effective ID 2, the effective ID is set to 1, which keeps the saved
ID by the manual page, and to 2, which sets it. -/
theorem saved_id_wrong :
    ((task ⟨1, 2, 3⟩).perform .uid (.setREID noID 1)).2.kuids = ⟨1, 1, 1⟩ ∧
    (task ⟨1, 2, 3⟩).prescribed .uid (.setREID noID 1) = ⟨1, 1, 3⟩ ∧
    ((task ⟨1, 2, 3⟩).perform .uid (.setREID noID 2)).2.kuids = ⟨1, 2, 3⟩ ∧
    (task ⟨1, 2, 3⟩).prescribed .uid (.setREID noID 2) = ⟨1, 2, 2⟩ := by
  decide

end BVisor.Auth.Identity
