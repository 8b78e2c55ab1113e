import BVisor.Data.Run

/-! The egress gate over the life of a sandbox: the stacks that its creator builds, checkpoints of
them, and restores with or without a donated gate. -/

namespace BVisor.Egress

open List Option

/-- A gate of a stack: a live client, or `missingEgressGate`, which denies every check. -/
inductive Gate where
  | client (id : Nat)
  | missing
deriving DecidableEq

/-- `stack.Stack`; `egressGate` is not saved. -/
structure Stack where
  egressGated : Bool
  egressGate : Option Gate
deriving DecidableEq

/-- `sandboxNetstackCreator`; `egressGate` and `egressGateMissing` are not saved. -/
structure Creator where
  egressFD : Option Nat
  egressGated : Bool
  egressGate : Option Nat
  egressGateMissing : Bool
deriving DecidableEq

inductive Network where
  | host | none | sandbox | plugin
deriving DecidableEq

structure Config where
  network : Network
  enableRaw : Bool
  allowPacketEndpointWrite : Bool
deriving DecidableEq

inductive Failure where
  | bypass | restoreMustDonate | clientFailed | optionFailed
deriving DecidableEq

def Stack.new (egressGate : Option Gate) : Stack :=
  { egressGated := egressGate.isSome
    egressGate }

/-- `newEmptySandboxNetworkStack`. `opened` is what `newEgressGateClient` makes of the donated FD
and `configures` whether all options are accepted; a creator keeps a client that it has opened. -/
def Creator.newEmptySandboxNetworkStack (creator : Creator) (opened : Option Nat)
    (configures : Bool) : Creator × Except Failure Stack :=
  if creator.egressGateMissing then (creator, .error .restoreMustDonate)
  else
    let withGate : Option Creator :=
      if creator.egressGate = none ∧ creator.egressFD ≠ none then
        match opened with
        | none => none
        | some client => some { creator with egressGate := some client, egressGated := true }
      else some creator
    match withGate with
    | none => (creator, .error .clientFailed)
    | some creator =>
      if configures then (creator, .ok (.new (creator.egressGate.map .client)))
      else (creator, .error .optionFailed)

def Config.bypasses (conf : Config) : Bool :=
  conf.network == .host || conf.network == .plugin || conf.enableRaw || conf.allowPacketEndpointWrite

def Creator.new (egressFD : Option Nat) : Creator :=
  { egressFD
    egressGated := false
    egressGate := none
    egressGateMissing := false }

/-- `newRootNetworkNamespace`; without a sandbox stack there is no creator. -/
def newRootNetworkNamespace (conf : Config) (egressFD opened : Option Nat) (configures : Bool) :
    Except Failure (Option (Creator × Stack)) :=
  if egressFD.isSome && conf.bypasses then .error .bypass
  else
    match conf.network with
    | .host | .plugin => .ok none
    | .none | .sandbox =>
      match (Creator.new egressFD).newEmptySandboxNetworkStack opened configures with
      | (_, .error failure) => .error failure
      | (creator, .ok stack) => .ok (some (creator, stack))

/-- `Stack.afterLoad`; `supplied` is the client in the context of the restore. -/
def Stack.afterLoad (stack : Stack) (supplied : Option Nat) : Stack :=
  match supplied with
  | some client => { egressGated := true, egressGate := some (.client client) }
  | none =>
    if stack.egressGated then { stack with egressGate := some .missing }
    else { stack with egressGate := none }

def Creator.afterLoad (creator : Creator) (supplied : Option Nat) : Creator :=
  let creator :=
    { creator with egressGated := creator.egressGated || creator.egressFD.isSome }
  if creator.egressGate ≠ none then { creator with egressGated := true }
  else
    match supplied with
    | some client => { creator with egressGate := some client, egressGated := true }
    | none =>
      if creator.egressGated then { creator with egressGateMissing := true } else creator

/-- A running sandbox: the creator, the stack of the root namespace, the stacks of the others with
those that only sockets still use, and how many other namespaces there are. `everGated` records
whether the creator or a stack has ever been marked as gated, through all checkpoints. -/
structure Sandbox where
  creator : Creator
  root : Stack
  others : List Stack
  namespaces : Nat
  everGated : Bool
deriving DecidableEq

def Sandbox.netStacks (sandbox : Sandbox) : List Stack :=
  sandbox.root :: sandbox.others

def Sandbox.marked (sandbox : Sandbox) : Bool :=
  sandbox.creator.egressGated || sandbox.netStacks.any Stack.egressGated

def Sandbox.remember (sandbox : Sandbox) : Sandbox :=
  { sandbox with everGated := sandbox.everGated || sandbox.marked }

def Sandbox.save (sandbox : Sandbox) : Sandbox :=
  { sandbox with
    creator := { sandbox.creator with egressGate := none, egressGateMissing := false }
    root := { sandbox.root with egressGate := none }
    others := sandbox.others.map fun stack => { stack with egressGate := none } }

/-- `CreateStack` for a new network namespace. The creator may have changed also on failure. -/
def Sandbox.createStack (sandbox : Sandbox) (opened : Option Nat) (configures : Bool) : Sandbox :=
  match sandbox.creator.newEmptySandboxNetworkStack opened configures with
  | (creator, .error _) => { sandbox with creator }.remember
  | (creator, .ok stack) =>
    { sandbox with
      creator
      others := sandbox.others ++ [stack]
      namespaces := sandbox.namespaces + 1 }.remember

/-- `Namespace.afterLoad` of every namespace but the root; an error is a panic. -/
def Creator.createStacks (creator : Creator) (opened : Option Nat) (configures : Bool) :
    Nat → Option (Creator × List Stack)
  | 0 => some (creator, [])
  | count + 1 =>
    match creator.newEmptySandboxNetworkStack opened configures with
    | (_, .error _) => none
    | (creator, .ok stack) =>
      match creator.createStacks opened configures count with
      | none => none
      | some (creator, netStacks) => some (creator, stack :: netStacks)

/-- `restore`: the objects of the state file are loaded, then the namespaces create their stacks,
and a root stack that was gated needs a donated client. -/
def Sandbox.restore (image : Sandbox) (supplied opened : Option Nat) (configures : Bool) : Option Sandbox :=
  match (image.creator.afterLoad supplied).createStacks opened configures image.namespaces with
  | none => none
  | some (creator, created) =>
    let root := image.root.afterLoad supplied
    if supplied = none ∧ root.egressGated = true then none
    else
      some (Sandbox.remember
        { creator
          root
          others := image.others.map (·.afterLoad supplied) ++ created
          namespaces := image.namespaces
          everGated := image.everGated })

/-- The sandbox that runs, if any, the checkpoints taken so far, and the clients that were ever
opened from a donated FD. -/
structure World where
  live : Option Sandbox
  images : List Sandbox
  clients : List Nat
deriving DecidableEq

inductive LifeEvent where
  | boot (conf : Config) (egressFD opened : Option Nat) (configures : Bool)
  | createStack (opened : Option Nat) (configures : Bool)
  | save
  | restore (image : Nat) (supplied opened : Option Nat) (configures : Bool)
deriving DecidableEq

def World.empty : World :=
  { live := none, images := [], clients := [] }

def World.step (world : World) : LifeEvent → Option World
  | .boot conf egressFD opened configures =>
    match newRootNetworkNamespace conf egressFD opened configures with
    | .ok (some (creator, root)) =>
      some { world with
        live := some (Sandbox.remember
          { creator, root, others := [], namespaces := 0, everGated := false })
        clients := world.clients ++ opened.toList }
    | _ => some { world with live := none, clients := world.clients ++ opened.toList }
  | .createStack opened configures =>
    some { world with
      live := world.live.map fun sandbox => sandbox.createStack opened configures
      clients := world.clients ++ opened.toList }
  | .save => some { world with images := world.images ++ (world.live.map Sandbox.save).toList }
  | .restore image supplied opened configures =>
    match world.images[image]? with
    | none => none
    | some image =>
      some { world with
        live := image.restore supplied opened configures
        clients := world.clients ++ supplied.toList ++ opened.toList }

variable {clients more : List Nat} {creator after : Creator} {stack : Stack} {sandbox : Sandbox}
  {supplied opened : Option Nat} {configures : Bool}

def Creator.enforces (creator : Creator) : Bool :=
  creator.egressGated || creator.egressFD.isSome

/-- A gate that enforces: it denies everything, or it is one of the donated clients. -/
def Gate.Genuine (clients : List Nat) : Gate → Prop
  | .client id => id ∈ clients
  | .missing => True

/-- An ungated stack only where nothing has to be gated, and a gated one with its gate. -/
structure Stack.OK (clients : List Nat) (creator : Creator) (stack : Stack) : Prop where
  gated : stack.egressGated = creator.enforces
  gate : stack.egressGated = true → ∃ gate, stack.egressGate = some gate ∧ gate.Genuine clients

structure Creator.OK (clients : List Nat) (creator : Creator) : Prop where
  client : ∀ id, creator.egressGate = some id → id ∈ clients ∧ creator.egressGated = true
  supply : creator.egressGated = true →
    creator.egressGate ≠ none ∨ creator.egressGateMissing = true ∨ creator.egressFD ≠ none

structure Sandbox.OK (clients : List Nat) (sandbox : Sandbox) : Prop where
  creator : sandbox.creator.OK clients
  netStacks : ∀ stack ∈ sandbox.netStacks, stack.OK clients sandbox.creator
  ever : sandbox.everGated = true → sandbox.creator.enforces = true

/-- What a checkpoint keeps of `Sandbox.OK`: everything but the gates. -/
structure Sandbox.Saved (image : Sandbox) : Prop where
  gate : image.creator.egressGate = none
  missing : image.creator.egressGateMissing = false
  netStacks : ∀ stack ∈ image.netStacks, stack.egressGated = image.creator.enforces
  ever : image.everGated = true → image.creator.enforces = true

theorem Gate.Genuine.mono {gate : Gate} (genuine : gate.Genuine clients) (subset : clients ⊆ more) :
    gate.Genuine more := by
  cases gate with
  | client id => exact subset genuine
  | missing => trivial

theorem Stack.OK.mono (ok : stack.OK clients creator) (subset : clients ⊆ more) : stack.OK more creator := by
  refine ⟨ok.gated, fun gated => ?_⟩
  obtain ⟨gate, has, genuine⟩ := ok.gate gated
  exact ⟨gate, has, genuine.mono subset⟩

theorem Creator.OK.mono (ok : creator.OK clients) (subset : clients ⊆ more) : creator.OK more :=
  ⟨fun id has => ⟨subset (ok.client id has).1, (ok.client id has).2⟩, ok.supply⟩

theorem Sandbox.OK.mono (ok : sandbox.OK clients) (subset : clients ⊆ more) : sandbox.OK more :=
  ⟨ok.creator.mono subset, fun stack member => (ok.netStacks stack member).mono subset, ok.ever⟩

open Creator

theorem Stack.new_ok (ok : creator.OK clients) (notMissing : creator.egressGateMissing = false)
    (consumed : ¬ (creator.egressGate = none ∧ creator.egressFD ≠ none)) :
    (new (creator.egressGate.map .client)).OK clients creator := by
  cases gate : creator.egressGate with
  | some id =>
    obtain ⟨donated, gated⟩ := ok.client id gate
    refine ⟨?_, fun _ => ⟨.client id, rfl, donated⟩⟩
    simp [new, enforces, gated]
  | none =>
    have noFD : creator.egressFD = none := by
      by_cases absent : creator.egressFD = none
      · exact absent
      · exact absurd ⟨gate, absent⟩ consumed
    have ungated : creator.egressGated = false := by
      refine Bool.eq_false_iff.mpr fun gated => ?_
      rcases ok.supply gated with present | missing | fd
      · exact present gate
      · rw [notMissing] at missing
        cases missing
      · exact fd noFD
    exact ⟨by simp [new, enforces, ungated, noFD], nofun⟩

theorem Creator.newEmptySandboxNetworkStack_ok {result : Except Failure Stack}
    (ok : creator.OK clients) (donated : ∀ client, opened = some client → client ∈ clients)
    (created : creator.newEmptySandboxNetworkStack opened configures = (after, result)) :
    after.OK clients ∧ after.enforces = creator.enforces ∧
      ∀ stack, result = .ok stack → stack.OK clients after := by
  unfold newEmptySandboxNetworkStack at created
  split at created
  · cases created
    exact ⟨ok, rfl, nofun⟩
  rename_i isSupplied
  have notMissing : creator.egressGateMissing = false := by simpa using isSupplied
  by_cases unopened : creator.egressGate = none ∧ creator.egressFD ≠ none
  · rw [if_pos unopened] at created
    cases isOpened : opened with
    | none =>
      simp only [isOpened, Prod.mk.injEq] at created
      obtain ⟨rfl, rfl⟩ := created
      exact ⟨ok, rfl, nofun⟩
    | some client =>
      have fd : creator.egressFD.isSome = true := isSome_iff_ne_none.mpr unopened.2
      have withClient : Creator.OK clients
          { creator with egressGate := some client, egressGated := true } :=
        ⟨fun id same => ⟨Option.some.inj same ▸ donated client isOpened, rfl⟩, fun _ => .inl nofun⟩
      have same : enforces { creator with egressGate := some client, egressGated := true } =
          creator.enforces := by
        simp [enforces, fd]
      simp only [isOpened] at created
      split at created <;> cases created
      · refine ⟨withClient, same, fun stack isStack => ?_⟩
        rw [← Except.ok.inj isStack]
        exact Stack.new_ok withClient notMissing (by simp)
      · exact ⟨withClient, same, nofun⟩
  · rw [if_neg unopened] at created
    simp only at created
    split at created <;> cases created
    · refine ⟨ok, rfl, fun stack isStack => ?_⟩
      rw [← Except.ok.inj isStack]
      exact Stack.new_ok ok notMissing unopened
    · exact ⟨ok, rfl, nofun⟩

theorem Stack.OK.of_enforces (ok : stack.OK clients creator)
    (same : after.enforces = creator.enforces) : stack.OK clients after :=
  ⟨ok.gated.trans same.symm, ok.gate⟩

theorem Sandbox.OK.marked (ok : sandbox.OK clients) (marked : sandbox.marked = true) :
    sandbox.creator.enforces = true := by
  rcases Bool.or_eq_true _ _ ▸ marked with creator | netStacks
  · simp [enforces, creator]
  · obtain ⟨stack, member, gated⟩ := any_eq_true.mp netStacks
    rw [← (ok.netStacks stack member).gated, gated]

theorem Sandbox.OK.remember (ok : sandbox.OK clients) : sandbox.remember.OK clients := by
  refine ⟨ok.creator, ok.netStacks, fun ever => ?_⟩
  rcases Bool.or_eq_true _ _ ▸ ever with before | now
  · exact ok.ever before
  · exact ok.marked now

theorem Sandbox.OK.createStack (ok : sandbox.OK clients)
    (donated : ∀ client, opened = some client → client ∈ clients) :
    (sandbox.createStack opened configures).OK clients := by
  unfold Sandbox.createStack
  split
  · rename_i creator failure created
    obtain ⟨creatorOK, same, _⟩ := newEmptySandboxNetworkStack_ok ok.creator donated created
    exact Sandbox.OK.remember ⟨creatorOK,
      fun stack member => (ok.netStacks stack member).of_enforces same, fun ever => same ▸ ok.ever ever⟩
  rename_i creator stack created
  obtain ⟨creatorOK, same, stackOK⟩ := newEmptySandboxNetworkStack_ok ok.creator donated created
  refine Sandbox.OK.remember ⟨creatorOK, fun other member => ?_, fun ever => same ▸ ok.ever ever⟩
  rcases mem_cons.mp member with isRoot | inOthers
  · exact isRoot ▸ (ok.netStacks _ mem_cons_self).of_enforces same
  rcases mem_append.mp inOthers with old | new
  · exact (ok.netStacks other (mem_cons_of_mem _ old)).of_enforces same
  · rw [mem_singleton.mp new]
    exact stackOK stack rfl

theorem Creator.createStacks_ok {count : Nat} {netStacks : List Stack} (ok : creator.OK clients)
    (donated : ∀ client, opened = some client → client ∈ clients)
    (created : creator.createStacks opened configures count = some (after, netStacks)) :
    after.OK clients ∧ after.enforces = creator.enforces ∧
      ∀ stack ∈ netStacks, stack.OK clients after := by
  induction count generalizing creator netStacks with
  | zero =>
    cases created
    exact ⟨ok, rfl, nofun⟩
  | succ count ih =>
    unfold createStacks at created
    split at created
    · cases created
    rename_i next stack first
    obtain ⟨nextOK, same, stackOK⟩ := newEmptySandboxNetworkStack_ok ok donated first
    cases rest : next.createStacks opened configures count with
    | none => simp [rest] at created
    | some result =>
      obtain ⟨last, others⟩ := result
      simp only [rest, some.injEq, Prod.mk.injEq] at created
      obtain ⟨rfl, rfl⟩ := created
      obtain ⟨lastOK, sameLast, othersOK⟩ := ih nextOK rest
      refine ⟨lastOK, sameLast.trans same, fun other member => ?_⟩
      rcases mem_cons.mp member with isFirst | later
      · rw [isFirst]
        exact (stackOK stack rfl).of_enforces sameLast
      · exact othersOK other later

theorem Sandbox.OK.saved (ok : sandbox.OK clients) : sandbox.save.Saved := by
  refine ⟨rfl, rfl, fun stack member => ?_, ok.ever⟩
  rcases mem_cons.mp member with isRoot | inOthers
  · rw [isRoot]
    exact (ok.netStacks _ mem_cons_self).gated
  · obtain ⟨old, oldMember, rfl⟩ := mem_map.mp inOthers
    exact (ok.netStacks old (mem_cons_of_mem _ oldMember)).gated

namespace Creator

theorem afterLoad_ok (noGate : creator.egressGate = none)
    (donated : ∀ client, supplied = some client → client ∈ clients) :
    (creator.afterLoad supplied).OK clients ∧
      (creator.afterLoad supplied).enforces = (creator.enforces || supplied.isSome) := by
  cases supplied with
  | some client =>
    refine ⟨⟨?_, ?_⟩, ?_⟩
    · intro id has
      simp only [afterLoad, noGate, ne_eq, not_true_eq_false, ↓reduceIte, some.injEq] at has ⊢
      exact ⟨has ▸ donated client rfl, trivial⟩
    · intro _
      exact .inl (by simp [afterLoad, noGate])
    · simp [afterLoad, noGate, enforces]
  | none =>
    cases enforces : creator.egressGated || creator.egressFD.isSome with
    | true =>
      refine ⟨⟨?_, ?_⟩, ?_⟩
      · intro id has
        simp [afterLoad, noGate, enforces] at has
      · intro _
        exact .inr (.inl (by simp [afterLoad, noGate, enforces]))
      · simp [afterLoad, noGate, Creator.enforces, enforces]
    | false =>
      refine ⟨⟨?_, ?_⟩, ?_⟩
      · intro id has
        simp [afterLoad, noGate, enforces] at has
      · intro gated
        simp [afterLoad, noGate, enforces] at gated
      · obtain ⟨ungated, noFD⟩ := Bool.or_eq_false_iff.mp enforces
        simp [afterLoad, noGate, Creator.enforces, ungated, noFD]

end Creator

theorem Stack.afterLoad_ok {enforced : Bool} (gated : stack.egressGated = enforced)
    (enforces : after.enforces = (enforced || supplied.isSome))
    (donated : ∀ client, supplied = some client → client ∈ clients) :
    (stack.afterLoad supplied).OK clients after := by
  cases supplied with
  | some client =>
    exact ⟨by simp [afterLoad, enforces], fun _ => ⟨.client client, rfl, donated client rfl⟩⟩
  | none =>
    simp only [isSome_none, Bool.or_false] at enforces
    rw [← gated] at enforces
    cases isGated : stack.egressGated with
    | true =>
      rw [isGated] at enforces
      refine ⟨by simp [afterLoad, isGated, enforces], fun _ => ⟨.missing, ?_, trivial⟩⟩
      simp [afterLoad, isGated]
    | false =>
      rw [isGated] at enforces
      exact ⟨by simp [afterLoad, isGated, enforces], by simp [afterLoad, isGated]⟩

theorem Sandbox.Saved.restore {image : Sandbox} (saved : image.Saved)
    (isSupplied : ∀ client, supplied = some client → client ∈ clients)
    (isOpened : ∀ client, opened = some client → client ∈ clients)
    (restored : image.restore supplied opened configures = some sandbox) :
    sandbox.OK clients := by
  obtain ⟨loaded, loadedEnforces⟩ := afterLoad_ok saved.gate isSupplied
  unfold Sandbox.restore at restored
  split at restored
  · cases restored
  rename_i creator created creation
  obtain ⟨creatorOK, same, createdOK⟩ := createStacks_ok loaded isOpened creation
  have enforces := same.trans loadedEnforces
  simp only at restored
  split at restored
  · cases restored
  cases restored
  refine Sandbox.OK.remember ⟨creatorOK, fun stack member => ?_, fun ever => ?_⟩
  · rcases mem_cons.mp member with isRoot | inOthers
    · rw [isRoot]
      exact Stack.afterLoad_ok (saved.netStacks _ mem_cons_self) enforces isSupplied
    rcases mem_append.mp inOthers with old | new
    · obtain ⟨stack, oldMember, rfl⟩ := mem_map.mp old
      exact Stack.afterLoad_ok (saved.netStacks stack (mem_cons_of_mem _ oldMember)) enforces isSupplied
    · exact createdOK stack new
  · rw [enforces, saved.ever ever, Bool.true_or]

theorem Creator.new_ok (egressFD : Option Nat) : (new egressFD).OK clients :=
  ⟨nofun, nofun⟩

theorem newRootNetworkNamespace_ok {conf : Config} {egressFD : Option Nat}
    (donated : ∀ client, opened = some client → client ∈ clients)
    (booted : newRootNetworkNamespace conf egressFD opened configures = .ok (some (creator, stack))) :
    (Sandbox.mk creator stack [] 0 false).OK clients := by
  unfold newRootNetworkNamespace at booted
  split at booted
  · cases booted
  split at booted
  · cases booted
  · cases booted
  all_goals
    split at booted
    · cases booted
    rename_i first root created
    cases booted
    obtain ⟨creatorOK, _, stackOK⟩ :=
      newEmptySandboxNetworkStack_ok (new_ok egressFD) donated created
    refine ⟨creatorOK, fun other member => ?_, nofun⟩
    rw [mem_singleton.mp member]
    exact stackOK _ rfl

structure World.OK (world : World) : Prop where
  live : ∀ sandbox, world.live = some sandbox → sandbox.OK world.clients
  images : ∀ image ∈ world.images, image.Saved

theorem World.step_ok {world next : World} {event : LifeEvent} (ok : world.OK)
    (stepped : world.step event = some next) : next.OK := by
  have known : ∀ (first second : List Nat), first ⊆ first ++ second :=
    fun first second => subset_append_left first second
  have opens (opened : Option Nat) (first : List Nat) :
      ∀ client, opened = some client → client ∈ first ++ opened.toList := by
    rintro client rfl
    simp
  cases event with
  | boot conf egressFD opened configures =>
    simp only [World.step] at stepped
    split at stepped
    · rename_i creator root booted
      cases stepped
      refine ⟨fun sandbox isLive => ?_, ok.images⟩
      cases isLive
      exact Sandbox.OK.remember (newRootNetworkNamespace_ok (opens opened world.clients) booted)
    · cases stepped
      exact ⟨nofun, ok.images⟩
  | createStack opened configures =>
    cases stepped
    refine ⟨fun sandbox isLive => ?_, ok.images⟩
    obtain ⟨before, wasLive, rfl⟩ := map_eq_some_iff.mp isLive
    exact ((ok.live before wasLive).mono (known _ _)).createStack (opens opened world.clients)
  | save =>
    cases stepped
    refine ⟨ok.live, fun image member => ?_⟩
    rcases mem_append.mp member with old | new
    · exact ok.images image old
    · obtain ⟨sandbox, isLive, rfl⟩ := map_eq_some_iff.mp (mem_toList.mp new)
      exact (ok.live sandbox isLive).saved
  | restore index supplied opened configures =>
    simp only [World.step] at stepped
    cases found : world.images[index]? with
    | none => simp [found] at stepped
    | some image =>
      simp only [found, some.injEq] at stepped
      subst stepped
      refine ⟨fun sandbox isLive => ?_, ok.images⟩
      refine (ok.images image (mem_of_getElem? found)).restore ?_
        (opens opened (world.clients ++ supplied.toList)) isLive
      intro client isSupplied
      exact known _ _ (opens supplied world.clients client isSupplied)

/-- Once the creator or a stack of a sandbox has been marked as gated, through whatever
checkpoints and restores, every stack of it has a gate: a donated client or the denying one. -/
theorem egress_enforced {events : List LifeEvent} {world : World} {sandbox : Sandbox}
    (ran : Data.run World.step .empty events = some world) (isLive : world.live = some sandbox)
    (ever : sandbox.everGated = true) :
    ∀ stack ∈ sandbox.netStacks, ∃ gate, stack.egressGate = some gate ∧ gate.Genuine world.clients := by
  have initially : World.empty.OK := ⟨nofun, nofun⟩
  have ok := Data.run_invariant World.OK (fun _ _ _ ok stepped => World.step_ok ok stepped) ran initially
  intro stack member
  have stackOK := (ok.live sandbox isLive).netStacks stack member
  refine stackOK.gate ?_
  rw [stackOK.gated]
  exact (ok.live sandbox isLive).ever ever

/-- A sandbox that boots without a gate, gets one at a restore, and after a second checkpoint is
restored with another one and creates a namespace. -/
def gateAddedLater : List LifeEvent :=
  [.boot ⟨.sandbox, false, false⟩ none none true, .save, .restore 0 (some 7) none true, .save,
    .restore 1 none none true, .restore 1 (some 9) none true, .createStack none true]

theorem egress_enforced_gateAddedLater :
    ∃ world sandbox, Data.run World.step .empty gateAddedLater = some world ∧
      world.live = some sandbox ∧ sandbox.everGated = true ∧ sandbox.netStacks.length = 2 ∧
      ∀ stack ∈ sandbox.netStacks, ∃ gate, stack.egressGate = some gate ∧
        gate.Genuine world.clients := by
  refine ⟨_, _, rfl, rfl, rfl, rfl, ?_⟩
  exact egress_enforced (show Data.run World.step .empty gateAddedLater = some _ from rfl) rfl rfl

end BVisor.Egress
