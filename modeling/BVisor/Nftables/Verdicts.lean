import BVisor.Nftables.Evaluation

/-! The verdicts of a hook against the semantics of netfilter: a jump is a call, a goto a tail call,
and every base chain has the last word when it drops the packet or the packet runs off its end
under a drop policy. -/

namespace BVisor.Nftables

open List Option Except

variable {κ ς ω : Type} {ruleset : Ruleset κ ς ω} {tracking : Tracking ω} {rules : List (Rule κ ς ω)}
  {before after : Regs κ ω} {items : List (Item κ)} {chain : κ}

inductive Outcome where
  | accepted
  /-- Dropped, queued or stolen. -/
  | dropped
  /-- Off the end of the chain, or returned from it. -/
  | ranOff
deriving DecidableEq

inductive Traverses (ruleset : Ruleset κ ς ω) :
    List (Rule κ ς ω) → Regs κ ω → Outcome → Regs κ ω → Prop where
  | off (regs) : Traverses ruleset [] regs .ranOff regs
  | next {rule rest regs after last outcome} (ran : rule.evaluate ruleset regs = after)
      (code : after.1.code = .nftContinue ∨ after.1.code = .nftBreak)
      (later : Traverses ruleset rest ({ after.1 with code := .nftContinue }, after.2) outcome
        last) : Traverses ruleset (rule :: rest) regs outcome last
  | returned {rule rest regs after} (ran : rule.evaluate ruleset regs = after)
      (code : after.1.code = .nftReturn) :
      Traverses ruleset (rule :: rest) regs .ranOff ({ after.1 with code := .nftContinue }, after.2)
  | accept {rule rest regs after} (ran : rule.evaluate ruleset regs = after)
      (code : after.1.code = .nfAccept) : Traverses ruleset (rule :: rest) regs .accepted after
  | drop {rule rest regs after} (ran : rule.evaluate ruleset regs = after)
      (code : isTerminalCode after.1.code = true) :
      Traverses ruleset (rule :: rest) regs .dropped after
  | call {rule rest regs after middle last target outcome}
      (ran : rule.evaluate ruleset regs = after) (code : after.1.code = .nftJump)
      (chain : after.1.chain = some target)
      (body : Traverses ruleset (ruleset.rules target)
        ({ after.1 with code := .nftContinue }, after.2) .ranOff middle)
      (later : Traverses ruleset rest middle outcome last) :
      Traverses ruleset (rule :: rest) regs outcome last
  | stopped {rule rest regs after last target outcome}
      (ran : rule.evaluate ruleset regs = after) (code : after.1.code = .nftJump)
      (chain : after.1.chain = some target)
      (body : Traverses ruleset (ruleset.rules target)
        ({ after.1 with code := .nftContinue }, after.2) outcome last)
      (ends : outcome ≠ .ranOff) : Traverses ruleset (rule :: rest) regs outcome last
  | tailCall {rule rest regs after last target outcome}
      (ran : rule.evaluate ruleset regs = after) (code : after.1.code = .nftGoto)
      (chain : after.1.chain = some target)
      (body : Traverses ruleset (ruleset.rules target)
        ({ after.1 with code := .nftContinue }, after.2) outcome last) :
      Traverses ruleset (rule :: rest) regs outcome last

def Outcome.Leaves : Outcome → Code → Prop
  | .accepted, code => code = .nfAccept
  | .dropped, code => isTerminalCode code = true
  | .ranOff, code => code = .nftContinue

def Traversed (ruleset : Ruleset κ ς ω) (rules : List (Rule κ ς ω)) (before after : Regs κ ω) : Prop :=
  ∃ outcome : Outcome, outcome.Leaves after.1.code ∧ Traverses ruleset rules before outcome after

section Rules

variable {call : κ → Nat → Regs κ ω → Evaluated κ ω} {jumpDepth : Nat}

theorem evaluateRules_traversed
    (calls : ∀ chain depth before after, call chain depth before = some (.ok after) →
      Traversed ruleset (ruleset.rules chain) ({ before.1 with code := .nftContinue }, before.2)
        after) (continues : before.1.code = .nftContinue)
    (ran : evaluateRules ruleset call jumpDepth rules before = some (.ok after)) :
    Traversed ruleset rules before after := by
  induction rules generalizing before with
  | nil =>
    cases ran
    exact ⟨.ranOff, continues, .off _⟩
  | cons rule rest ih =>
    obtain ⟨⟨code, chain⟩, world, evaluated⟩ :
        ∃ verdict world, rule.evaluate ruleset before = (verdict, world) := ⟨_, _, rfl⟩
    simp only [evaluateRules, evaluated] at ran
    cases code with
    | nftContinue | nftBreak =>
      obtain ⟨outcome, leaves, later⟩ := ih rfl ran
      exact ⟨outcome, leaves, .next evaluated (by simp) later⟩
    | nftReturn =>
      cases ran
      exact ⟨.ranOff, rfl, .returned evaluated rfl⟩
    | nfAccept =>
      cases ran
      exact ⟨.accepted, rfl, .accept evaluated rfl⟩
    | nfDrop | nfQueue | nfStolen =>
      cases ran
      exact ⟨.dropped, rfl, .drop evaluated rfl⟩
    | nftGoto =>
      cases chain with
      | none => cases ran
      | some target =>
        obtain ⟨outcome, leaves, body⟩ := calls _ _ _ _ ran
        exact ⟨outcome, leaves, .tailCall evaluated rfl rfl body⟩
    | nftJump =>
      cases chain with
      | none => cases ran
      | some target =>
        dsimp only at ran
        split at ran
        · cases ran
        · cases ran
        · rename_i middle called
          obtain ⟨outcome, leaves, body⟩ := calls _ _ _ _ called
          obtain ⟨⟨middleCode, middleChain⟩, middleWorld⟩ := middle
          cases outcome with
          | ranOff =>
            cases leaves
            obtain ⟨last, leavesLast, later⟩ := ih rfl ran
            exact ⟨last, leavesLast, .call evaluated rfl rfl body later⟩
          | accepted =>
            cases leaves
            cases ran
            exact ⟨.accepted, rfl, .stopped evaluated rfl rfl body (by simp)⟩
          | dropped =>
            have stays : afterRule (⟨middleCode, middleChain⟩, middleWorld)
                (evaluateRules ruleset call jumpDepth rest) =
                some (.ok (⟨middleCode, middleChain⟩, middleWorld)) := by
              cases middleCode <;> first | rfl | cases leaves
            rw [stays] at ran
            cases ran
            exact ⟨.dropped, leaves, .stopped evaluated rfl rfl body (by simp)⟩

end Rules

/-- A chain that returns was traversed as netfilter says. -/
theorem evaluateFromRule_traversed {fuel jumpDepth : Nat}
    (ran : evaluateFromRule ruleset fuel chain jumpDepth before = some (.ok after)) :
    Traversed ruleset (ruleset.rules chain) ({ before.1 with code := .nftContinue }, before.2)
      after := by
  induction fuel generalizing chain jumpDepth before after with
  | zero => cases ran
  | succ fuel ih =>
    rw [evaluateFromRule] at ran
    split at ran
    · cases ran
    · exact evaluateRules_traversed (fun _ _ _ _ => ih) rfl ran

theorem Traverses.unique {before first second : Regs κ ω}
    {one other : Outcome} (traverses : Traverses ruleset rules before one first)
    (again : Traverses ruleset rules before other second) : one = other ∧ first = second := by
  induction traverses generalizing other second with
  | off regs =>
    cases again
    exact ⟨rfl, rfl⟩
  | next ran code later ih =>
    subst ran
    cases again with
    | next ran codeAgain laterAgain =>
      subst ran
      exact ih laterAgain
    | drop ran codeAgain =>
      subst ran
      rcases code with code | code <;> rw [code] at codeAgain <;> cases codeAgain
    | _ => simp_all
  | returned ran code =>
    subst ran
    cases again with
    | returned ran codeAgain =>
      subst ran
      exact ⟨rfl, rfl⟩
    | _ => simp_all [isTerminalCode]
  | accept ran code =>
    subst ran
    cases again with
    | accept ran codeAgain => exact ⟨rfl, ran⟩
    | _ => simp_all [isTerminalCode]
  | drop ran code =>
    subst ran
    cases again with
    | drop ran codeAgain => exact ⟨rfl, ran⟩
    | next ran codeAgain laterAgain =>
      subst ran
      rcases codeAgain with codeAgain | codeAgain <;> rw [codeAgain] at code <;> cases code
    | _ => simp_all [isTerminalCode]
  | call ran code chain body later bodyIh laterIh =>
    subst ran
    cases again with
    | call ran codeAgain chainAgain bodyAgain laterAgain =>
      subst ran
      cases chain.symm.trans chainAgain
      obtain ⟨-, rfl⟩ := bodyIh bodyAgain
      exact laterIh laterAgain
    | stopped ran codeAgain chainAgain bodyAgain ends =>
      subst ran
      cases chain.symm.trans chainAgain
      exact (ends (bodyIh bodyAgain).1.symm).elim
    | _ => simp_all [isTerminalCode]
  | stopped ran code chain body ends ih =>
    subst ran
    cases again with
    | call ran codeAgain chainAgain bodyAgain laterAgain =>
      subst ran
      cases chain.symm.trans chainAgain
      exact (ends (ih bodyAgain).1).elim
    | stopped ran codeAgain chainAgain bodyAgain endsAgain =>
      subst ran
      cases chain.symm.trans chainAgain
      exact ih bodyAgain
    | _ => simp_all [isTerminalCode]
  | tailCall ran code chain body ih =>
    subst ran
    cases again with
    | tailCall ran codeAgain chainAgain bodyAgain =>
      subst ran
      cases chain.symm.trans chainAgain
      exact ih bodyAgain
    | _ => simp_all [isTerminalCode]

/-! The base chains of a hook. -/

/-- What happened to a packet at a hook, one step after the other. -/
inductive Step where
  /-- It left a base chain, whose policy is to drop or not. -/
  | left (outcome : Outcome) (policyDrop : Bool)
  /-- It left a base chain for translation. -/
  | leftNAT (outcome : Outcome) (policyDrop : Bool)
  /-- It was translated. -/
  | translated
deriving DecidableEq

def Step.Passes : Step → Prop
  | .left outcome policyDrop | .leftNAT outcome policyDrop =>
    outcome = .accepted ∨ outcome = .ranOff ∧ policyDrop = false
  | .translated => True

def entered (regs : Regs κ ω) : Regs κ ω := ({ regs.1 with code := .nftContinue }, regs.2)

/-- The base chains for translation that a packet meets, until one of them drops it or configures
its translation; with none left, translation to itself is configured. The last argument is whether
the packet was dropped. -/
inductive NATTrace (ruleset : Ruleset κ ς ω) (tracking : Tracking ω) :
    List (BaseChain κ) → Regs κ ω → List Step → Regs κ ω → Bool → Prop where
  | noop {regs world} (configured : tracking.configureNoopNAT regs.2 = some world) :
      NATTrace ruleset tracking [] regs [.translated]
        ({ regs.1 with code := .nfAccept }, tracking.applyNAT world) false
  | dormant {bc rest regs steps last dropped} (sleeps : bc.dormant = true)
      (later : NATTrace ruleset tracking rest regs steps last dropped) :
      NATTrace ruleset tracking (bc :: rest) regs steps last dropped
  | dropped {bc rest regs last} (awake : bc.dormant = false)
      (body : Traverses ruleset (ruleset.rules bc.chain) (entered regs) .dropped last) :
      NATTrace ruleset tracking (bc :: rest) regs [.leftNAT .dropped bc.info.policyDrop] last true
  | configured {bc rest regs outcome after} (awake : bc.dormant = false)
      (body : Traverses ruleset (ruleset.rules bc.chain) (entered regs) outcome after)
      (passes : outcome ≠ .dropped) (done : tracking.isNATConfigured after.2 = true) :
      NATTrace ruleset tracking (bc :: rest) regs
        [.leftNAT outcome bc.info.policyDrop, .translated]
        ({ after.1 with code := .nfAccept }, tracking.applyNAT after.2) false
  | next {bc rest regs outcome after steps last dropped} (awake : bc.dormant = false)
      (body : Traverses ruleset (ruleset.rules bc.chain) (entered regs) outcome after)
      (passes : outcome ≠ .dropped) (undone : tracking.isNATConfigured after.2 = false)
      (later : NATTrace ruleset tracking rest after steps last dropped) :
      NATTrace ruleset tracking (bc :: rest) regs (.leftNAT outcome bc.info.policyDrop :: steps) last dropped

/-- What happens to a packet at a hook, in the order of the priorities and until it is dropped. -/
inductive Trace (ruleset : Ruleset κ ς ω) (tracking : Tracking ω)
    (natBaseChains : List (BaseChain κ)) : List (Item κ) → Regs κ ω → List Step → Prop where
  | done (regs) : Trace ruleset tracking natBaseChains [] regs []
  | connTrack {priority rest regs world steps} (handled : tracking.handle regs.2 = some world)
      (later : Trace ruleset tracking natBaseChains rest (regs.1, world) steps) :
      Trace ruleset tracking natBaseChains (.extra priority .connTrack :: rest) regs steps
  | untracked {priority rest regs steps} (absent : tracking.isConnTrackConfigured regs.2 = false)
      (later : Trace ruleset tracking natBaseChains rest regs steps) :
      Trace ruleset tracking natBaseChains (.extra priority .nat :: rest) regs steps
  | translated {priority rest regs steps} (present : tracking.isConnTrackConfigured regs.2 = true)
      (done : tracking.isNATConfigured regs.2 = true)
      (later : Trace ruleset tracking natBaseChains rest
        ({ regs.1 with code := .nfAccept }, tracking.applyNAT regs.2) steps) :
      Trace ruleset tracking natBaseChains (.extra priority .nat :: rest) regs (.translated :: steps)
  | natDropped {priority rest regs steps last}
      (present : tracking.isConnTrackConfigured regs.2 = true)
      (undone : tracking.isNATConfigured regs.2 = false)
      (body : NATTrace ruleset tracking natBaseChains regs steps last true) :
      Trace ruleset tracking natBaseChains (.extra priority .nat :: rest) regs steps
  | nat {priority rest regs first steps last}
      (present : tracking.isConnTrackConfigured regs.2 = true)
      (undone : tracking.isNATConfigured regs.2 = false)
      (body : NATTrace ruleset tracking natBaseChains regs first last false)
      (later : Trace ruleset tracking natBaseChains rest last steps) :
      Trace ruleset tracking natBaseChains (.extra priority .nat :: rest) regs (first ++ steps)
  | dormant {bc rest regs steps} (sleeps : bc.dormant = true)
      (later : Trace ruleset tracking natBaseChains rest regs steps) :
      Trace ruleset tracking natBaseChains (.chain bc :: rest) regs steps
  | dropped {bc rest regs last} (awake : bc.dormant = false)
      (body : Traverses ruleset (ruleset.rules bc.chain) (entered regs) .dropped last) :
      Trace ruleset tracking natBaseChains (.chain bc :: rest) regs [.left .dropped bc.info.policyDrop]
  | next {bc rest regs outcome after steps} (awake : bc.dormant = false)
      (body : Traverses ruleset (ruleset.rules bc.chain) (entered regs) outcome after)
      (passes : outcome ≠ .dropped)
      (later : Trace ruleset tracking natBaseChains rest after steps) :
      Trace ruleset tracking natBaseChains (.chain bc :: rest) regs (.left outcome bc.info.policyDrop :: steps)

section Unique

variable {natBaseChains : List (BaseChain κ)} {steps stepsAgain : List Step}

theorem NATTrace.unique {regs last lastAgain : Regs κ ω}
    {dropped droppedAgain : Bool} (trace : NATTrace ruleset tracking natBaseChains regs steps last dropped)
    (again : NATTrace ruleset tracking natBaseChains regs stepsAgain lastAgain droppedAgain) :
    steps = stepsAgain ∧ last = lastAgain ∧ dropped = droppedAgain := by
  induction trace generalizing stepsAgain lastAgain droppedAgain with
  | noop configured =>
    cases again with
    | noop configuredAgain =>
      cases configured.symm.trans configuredAgain
      exact ⟨rfl, rfl, rfl⟩
  | dormant sleeps later ih =>
    cases again with
    | dormant _ laterAgain => exact ih laterAgain
    | _ => simp_all
  | dropped awake body =>
    cases again with
    | dropped _ bodyAgain =>
      obtain ⟨-, rfl⟩ := body.unique bodyAgain
      exact ⟨rfl, rfl, rfl⟩
    | dormant sleeps _ => simp_all
    | configured _ bodyAgain passes | next _ bodyAgain passes =>
      exact (passes (body.unique bodyAgain).1.symm).elim
  | configured awake body passes done =>
    cases again with
    | configured _ bodyAgain _ _ =>
      obtain ⟨rfl, rfl⟩ := body.unique bodyAgain
      exact ⟨rfl, rfl, rfl⟩
    | dormant sleeps _ => simp_all
    | dropped _ bodyAgain => exact (passes (body.unique bodyAgain).1).elim
    | next _ bodyAgain _ undone _ =>
      obtain ⟨-, rfl⟩ := body.unique bodyAgain
      cases done.symm.trans undone
  | next awake body passes undone later ih =>
    cases again with
    | next _ bodyAgain _ _ laterAgain =>
      obtain ⟨rfl, rfl⟩ := body.unique bodyAgain
      obtain ⟨rfl, rfl, rfl⟩ := ih laterAgain
      exact ⟨rfl, rfl, rfl⟩
    | dormant sleeps _ => simp_all
    | dropped _ bodyAgain => exact (passes (body.unique bodyAgain).1).elim
    | configured _ bodyAgain _ done =>
      obtain ⟨-, rfl⟩ := body.unique bodyAgain
      cases done.symm.trans undone

theorem Trace.unique {regs : Regs κ ω}
    (trace : Trace ruleset tracking natBaseChains items regs steps)
    (again : Trace ruleset tracking natBaseChains items regs stepsAgain) : steps = stepsAgain := by
  induction trace generalizing stepsAgain with
  | done regs =>
    cases again
    rfl
  | connTrack handled later ih =>
    cases again with
    | connTrack handledAgain laterAgain =>
      cases handled.symm.trans handledAgain
      exact ih laterAgain
  | untracked absent later ih =>
    cases again with
    | untracked _ laterAgain => exact ih laterAgain
    | _ => simp_all
  | translated present done later ih =>
    cases again with
    | translated _ _ laterAgain => rw [ih laterAgain]
    | _ => simp_all
  | natDropped present undone body =>
    cases again with
    | natDropped _ _ bodyAgain => exact (body.unique bodyAgain).1
    | nat _ _ bodyAgain _ => cases (body.unique bodyAgain).2.2
    | _ => simp_all
  | nat present undone body later ih =>
    cases again with
    | nat _ _ bodyAgain laterAgain =>
      obtain ⟨rfl, rfl, -⟩ := body.unique bodyAgain
      rw [ih laterAgain]
    | natDropped _ _ bodyAgain => cases (body.unique bodyAgain).2.2
    | _ => simp_all
  | dormant sleeps later ih =>
    cases again with
    | dormant _ laterAgain => exact ih laterAgain
    | _ => simp_all
  | dropped awake body =>
    cases again with
    | dropped _ _ => rfl
    | dormant sleeps _ => simp_all
    | next _ bodyAgain passes _ => exact (passes (body.unique bodyAgain).1.symm).elim
  | next awake body passes later ih =>
    cases again with
    | next _ bodyAgain _ laterAgain =>
      obtain ⟨rfl, rfl⟩ := body.unique bodyAgain
      rw [ih laterAgain]
    | dormant sleeps _ => simp_all
    | dropped _ bodyAgain => exact (passes (body.unique bodyAgain).1).elim

end Unique

/-! What the code makes of the steps. -/

def Step.drops : Step → Bool
  | .left .dropped _ | .leftNAT .dropped _ => true
  | _ => false

/-- The policy that `EvaluateHook` applies if this step is the last one. -/
def Step.rejects : Step → Bool
  | .left .ranOff policyDrop => policyDrop
  | _ => false

def accepts : Bool → List Step → Bool
  | rejecting, [] => !rejecting
  | _, step :: rest => !step.drops && accepts step.rejects rest

theorem accepts_translated {first : List Step} (passes : ∀ step ∈ first, step.drops = false)
    (rejecting : Bool) (rest : List Step) :
    accepts rejecting (first ++ .translated :: rest) = accepts false rest := by
  induction first generalizing rejecting with
  | nil => rfl
  | cons step first ih =>
    rw [cons_append, accepts, passes step mem_cons_self,
      ih (forall_mem_cons.mp passes).2]
    rfl

variable {step : Step} {steps : List Step}

theorem accepts_of_drops (member : step ∈ steps)
    (drops : step.drops = true) (rejecting : Bool) : accepts rejecting steps = false := by
  induction steps generalizing rejecting with
  | nil => cases member
  | cons head rest ih =>
    rw [accepts]
    rcases mem_cons.mp member with rfl | later
    · rw [drops]
      rfl
    · rw [ih later, Bool.and_false]

section Code

variable {fuel : Nat} {before after : Regs κ ω}

theorem evaluateChain_traversed (ran : evaluateChain ruleset fuel chain before = some (.ok after)) :
    ∃ outcome : Outcome, outcome.Leaves after.1.code ∧
      Traverses ruleset (ruleset.rules chain) (entered before) outcome after :=
  evaluateFromRule_traversed ran

variable {code : Code} {outcome : Outcome}

theorem Outcome.Leaves.dropped_iff
    (leaves : outcome.Leaves code) : isTerminalCode code = true ↔ outcome = .dropped := by
  cases outcome <;> simp_all [Outcome.Leaves, isTerminalCode]

theorem leftNAT_drops {policyDrop : Bool} (passes : outcome ≠ .dropped) :
    (Step.leftNAT outcome policyDrop).drops = false := by
  cases outcome <;> simp_all [Step.drops]

variable {natBaseChains : List (BaseChain κ)}

theorem evaluateNATBaseChains_trace {configured : Bool}
    (ran : evaluateNATBaseChains ruleset tracking fuel natBaseChains before =
      some (.ok (after, configured))) :
    (configured = true ∧ ∃ first, (∀ step ∈ first, step.drops = false) ∧
      NATTrace ruleset tracking natBaseChains before (first ++ [.translated])
        ({ after.1 with code := .nfAccept }, tracking.applyNAT after.2) false) ∨
    (configured = false ∧ isTerminalCode after.1.code = true ∧ ∃ steps, (∃ step ∈ steps, step.drops = true) ∧
      NATTrace ruleset tracking natBaseChains before steps after true) := by
  induction natBaseChains generalizing before with
  | nil =>
    cases noop : tracking.configureNoopNAT before.2 with
    | none => simp only [evaluateNATBaseChains, noop, some.injEq, reduceCtorEq] at ran
    | some world =>
      simp only [evaluateNATBaseChains, noop, some.injEq, ok.injEq, Prod.mk.injEq] at ran
      obtain ⟨rfl, rfl⟩ := ran
      exact .inl ⟨rfl, [], by simp, .noop noop⟩
  | cons bc rest ih =>
    rw [evaluateNATBaseChains] at ran
    by_cases sleeps : bc.dormant = true
    · rw [if_pos sleeps] at ran
      rcases ih ran with ⟨done, first, passes, trace⟩ | ⟨undone, terminal, steps, drops, trace⟩
      · exact .inl ⟨done, first, passes, .dormant sleeps trace⟩
      · exact .inr ⟨undone, terminal, steps, drops, .dormant sleeps trace⟩
    have awake : bc.dormant = false := Bool.eq_false_iff.mpr sleeps
    rw [if_neg sleeps] at ran
    split at ran
    · cases ran
    · cases ran
    · rename_i middle evaluated
      obtain ⟨outcome, leaves, body⟩ := evaluateChain_traversed evaluated
      by_cases terminal : isTerminalCode middle.1.code = true
      · simp only [if_pos terminal, some.injEq, ok.injEq, Prod.mk.injEq] at ran
        obtain ⟨rfl, rfl⟩ := ran
        obtain rfl := leaves.dropped_iff.mp terminal
        exact .inr ⟨rfl, terminal, _, ⟨_, mem_singleton_self _, rfl⟩, .dropped awake body⟩
      have passes : outcome ≠ .dropped := fun same =>
        terminal (leaves.dropped_iff.mpr same)
      rw [if_neg terminal] at ran
      by_cases done : tracking.isNATConfigured middle.2 = true
      · simp only [if_pos done, some.injEq, ok.injEq, Prod.mk.injEq] at ran
        obtain ⟨rfl, rfl⟩ := ran
        refine .inl ⟨rfl, [.leftNAT outcome bc.info.policyDrop], ?_, .configured awake body passes done⟩
        intro step member
        rw [mem_singleton.mp member]
        exact leftNAT_drops passes
      have undone : tracking.isNATConfigured middle.2 = false := Bool.eq_false_iff.mpr done
      rw [if_neg done] at ran
      rcases ih ran with ⟨configured, first, others, trace⟩ |
        ⟨notConfigured, dropped, steps, ⟨step, member, drops⟩, trace⟩
      · refine .inl ⟨configured, .leftNAT outcome bc.info.policyDrop :: first, ?_,
          .next awake body passes undone trace⟩
        intro step member
        rcases mem_cons.mp member with rfl | later
        · exact leftNAT_drops passes
        · exact others step later
      · exact .inr ⟨notConfigured, dropped, _,
          ⟨step, mem_cons_of_mem _ member, drops⟩,
          .next awake body passes undone trace⟩

/-- The policy that is due at the end if nothing more happens. -/
def dueReject (regs : Regs κ ω) (lastEvaluatedChain : Option (BaseChain κ)) : Bool :=
  regs.1.code = .nftContinue && lastEvaluatedChain.elim false fun chain => chain.info.policyDrop

theorem not_terminal (between : code = .nftContinue ∨ code = .nfAccept) : ¬ isTerminalCode code = true := by
  rcases between with rfl | rfl <;> simp [isTerminalCode]

theorem dropped_decides
    (terminal : isTerminalCode code = true) (member : step ∈ steps) (drops : step.drops = true)
    (rejecting : Bool) : code = .nfAccept ↔ accepts rejecting steps = true := by
  rw [accepts_of_drops member drops]
  constructor
  · intro accepted
    rw [accepted] at terminal
    cases terminal
  · intro impossible
    cases impossible

theorem evaluateNAT_cases {regs : Regs κ ω}
    (ran : evaluateNAT ruleset tracking fuel natBaseChains regs = some (.ok after)) :
    tracking.isConnTrackConfigured regs.2 = false ∧ after = regs ∨
    tracking.isConnTrackConfigured regs.2 = true ∧ tracking.isNATConfigured regs.2 = true ∧
      after = ({ regs.1 with code := .nfAccept }, tracking.applyNAT regs.2) ∨
    tracking.isConnTrackConfigured regs.2 = true ∧ tracking.isNATConfigured regs.2 = false ∧
      after.1.code = .nfAccept ∧ (∃ first, (∀ step ∈ first, step.drops = false) ∧
        NATTrace ruleset tracking natBaseChains regs (first ++ [.translated]) after false) ∨
    tracking.isConnTrackConfigured regs.2 = true ∧ tracking.isNATConfigured regs.2 = false ∧
      isTerminalCode after.1.code = true ∧ (∃ steps, (∃ step ∈ steps, step.drops = true) ∧
        NATTrace ruleset tracking natBaseChains regs steps after true) := by
  simp only [evaluateNAT] at ran
  cases present : tracking.isConnTrackConfigured regs.2 with
  | false =>
    simp only [present, Bool.not_false, if_true, some.injEq, ok.injEq] at ran
    exact .inl ⟨rfl, ran.symm⟩
  | true =>
    cases done : tracking.isNATConfigured regs.2 with
    | true =>
      simp only [present, done, Bool.not_true, Bool.false_eq_true, if_false, if_true,
        some.injEq, ok.injEq] at ran
      exact .inr (.inl ⟨rfl, rfl, ran.symm⟩)
    | false =>
      simp only [present, done, Bool.not_true, Bool.false_eq_true, if_false] at ran
      split at ran <;> cases ran
      · next chains =>
        rcases evaluateNATBaseChains_trace chains with ⟨impossible, -⟩ | ⟨-, terminal, steps, drops, trace⟩
        · cases impossible
        · exact .inr (.inr (.inr ⟨rfl, rfl, terminal, steps, drops, trace⟩))
      · next chains =>
        rcases evaluateNATBaseChains_trace chains with ⟨-, first, passes, trace⟩ | ⟨impossible, -⟩
        · exact .inr (.inr (.inl ⟨rfl, rfl, rfl, first, passes, trace⟩))
        · cases impossible

/-- What the code decides, from the steps that happen to the packet. -/
theorem evaluateItems_trace
    {lastEvaluatedChain : Option (BaseChain κ)} {regs : Regs κ ω}
    (ran : evaluateItems ruleset tracking fuel natBaseChains items lastEvaluatedChain regs =
      some (.ok code)) (between : regs.1.code = .nftContinue ∨ regs.1.code = .nfAccept) :
    ∃ steps, Trace ruleset tracking natBaseChains items regs steps ∧
      (code = .nfAccept ↔ accepts (dueReject regs lastEvaluatedChain) steps = true) := by
  induction items generalizing lastEvaluatedChain regs with
  | nil =>
    refine ⟨[], .done regs, ?_⟩
    rcases between with continues | accepted
    · cases lastEvaluatedChain with
      | none =>
        simp only [evaluateItems, continues, some.injEq, ok.injEq] at ran
        simp [accepts, dueReject, ← ran]
      | some chain =>
        simp only [evaluateItems, continues, some.injEq, ok.injEq] at ran
        cases policy : chain.info.policyDrop <;> simp [accepts, dueReject, continues, policy, ← ran]
    · simp only [evaluateItems, accepted, some.injEq, ok.injEq] at ran
      simp [accepts, dueReject, accepted, ← ran]
  | cons item rest ih =>
    cases item with
    | extra priority extra =>
      cases extra with
      | connTrack =>
        cases handled : tracking.handle regs.2 with
        | none => simp only [evaluateItems, handled, some.injEq, reduceCtorEq] at ran
        | some world =>
          simp only [evaluateItems, handled, if_neg (not_terminal between)] at ran
          obtain ⟨steps, trace, decides⟩ := ih ran between
          exact ⟨steps, .connTrack handled trace, decides⟩
      | nat =>
        simp only [evaluateItems] at ran
        split at ran
        · cases ran
        · cases ran
        · rename_i after evaluated
          rcases evaluateNAT_cases evaluated with ⟨absent, rfl⟩ | ⟨present, done, rfl⟩ |
            ⟨present, undone, accepted, first, passes, trace⟩ |
            ⟨present, undone, terminal, steps, ⟨step, member, drops⟩, trace⟩
          · rw [if_neg (not_terminal between)] at ran
            obtain ⟨steps, trace, decides⟩ := ih ran between
            exact ⟨steps, .untracked absent trace, decides⟩
          · rw [if_neg (not_terminal (.inr rfl))] at ran
            obtain ⟨steps, trace, decides⟩ := ih ran (.inr rfl)
            exact ⟨_, .translated present done trace, decides⟩
          · rw [if_neg (not_terminal (.inr accepted))] at ran
            obtain ⟨steps, later, decides⟩ := ih ran (.inr accepted)
            refine ⟨_, .nat present undone trace later, ?_⟩
            rw [append_assoc, singleton_append, accepts_translated passes]
            simpa only [dueReject, accepted, reduceCtorEq, decide_false, Bool.false_and] using decides
          · simp only [if_pos terminal, some.injEq, ok.injEq] at ran
            exact ⟨steps, .natDropped present undone trace, ran ▸ dropped_decides terminal member drops _⟩
    | chain bc =>
      by_cases sleeps : bc.dormant = true
      · simp only [evaluateItems, if_pos sleeps] at ran
        obtain ⟨steps, trace, decides⟩ := ih ran between
        exact ⟨steps, .dormant sleeps trace, decides⟩
      have awake : bc.dormant = false := Bool.eq_false_iff.mpr sleeps
      simp only [evaluateItems, if_neg sleeps] at ran
      split at ran
      · cases ran
      · cases ran
      · rename_i after evaluated
        obtain ⟨outcome, leaves, body⟩ := evaluateChain_traversed evaluated
        cases outcome with
        | dropped =>
          have terminal := leaves.dropped_iff.mpr rfl
          simp only [if_pos terminal, some.injEq, ok.injEq] at ran
          exact ⟨_, .dropped awake body, ran ▸ dropped_decides terminal (mem_singleton_self _) rfl _⟩
        | accepted | ranOff =>
          simp only [Outcome.Leaves] at leaves
          have between : after.1.code = .nftContinue ∨ after.1.code = .nfAccept := by simp [leaves]
          simp only [if_neg (not_terminal between)] at ran
          obtain ⟨steps, trace, decides⟩ := ih ran between
          refine ⟨_, .next awake body (by simp) trace, ?_⟩
          simpa [accepts, Step.drops, Step.rejects, dueReject, leaves] using decides

end Code

/-! When the code and netfilter agree. -/

def Step.runsOff : Step → Bool
  | .left .ranOff policyDrop | .leftNAT .ranOff policyDrop => policyDrop
  | _ => false

theorem Step.passes_iff (step : Step) : step.Passes ↔ step.drops = false ∧ step.runsOff = false := by
  cases step with
  | left outcome policyDrop | leftNAT outcome policyDrop => cases outcome <;> simp [Step.Passes, Step.drops, Step.runsOff]
  | translated => simp [Step.Passes, Step.drops, Step.runsOff]

theorem accepts_iff (rejecting : Bool) (steps : List Step) :
    accepts rejecting steps = true ↔ (∀ step ∈ steps, step.drops = false) ∧
        (steps.getLast?).elim rejecting Step.rejects = false := by
  induction steps generalizing rejecting with
  | nil => simp [accepts]
  | cons step rest ih =>
    rw [accepts, Bool.and_eq_true, ih, Bool.not_eq_true', forall_mem_cons, and_assoc]
    cases rest with
    | nil => simp
    | cons next rest =>
      obtain ⟨last, found⟩ : ∃ last, (next :: rest).getLast? = some last :=
        ⟨_, List.getLast?_eq_some_getLast (cons_ne_nil next rest)⟩
      rw [List.getLast?_cons_cons, found]
      rfl

/-- A drop policy that the packet meets on the way is heeded: some base chain drops the packet
outright, or the last thing that happens to it is to run off the end of such a chain. -/
def Heeded (steps : List Step) : Prop :=
  (∃ step ∈ steps, step.runsOff = true) →
    (∃ step ∈ steps, step.drops = true) ∨ ∃ step, steps.getLast? = some step ∧ step.rejects = true

theorem Step.runsOff_of_rejects (rejects : step.rejects = true) : step.runsOff = true := by
  cases step with
  | left outcome policyDrop => cases outcome <;> simp_all [Step.rejects, Step.runsOff]
  | leftNAT outcome policyDrop => cases rejects
  | translated => cases rejects

theorem accepts_passes_iff (steps : List Step) :
    (accepts false steps = true ↔ ∀ step ∈ steps, step.Passes) ↔ Heeded steps := by
  have none (p : Step → Bool) : (∀ step ∈ steps, p step = false) ↔ ¬ ∃ step ∈ steps, p step = true := by
    simp
  have passes : (∀ step ∈ steps, step.Passes) ↔
      (∀ step ∈ steps, step.drops = false) ∧ ∀ step ∈ steps, step.runsOff = false := by
    simp only [Step.passes_iff]
    exact forall₂_and
  have last : steps.getLast?.elim false Step.rejects = false ↔
      ¬ ∃ step, steps.getLast? = some step ∧ step.rejects = true := by
    cases steps.getLast? <;> simp
  have runsOff : (∃ step, steps.getLast? = some step ∧ step.rejects = true) →
      ∃ step ∈ steps, step.runsOff = true := fun ⟨step, found, rejects⟩ =>
    ⟨step, mem_of_getLast? found, Step.runsOff_of_rejects rejects⟩
  rw [accepts_iff, passes, last, none Step.drops, none Step.runsOff, Heeded]
  by_cases dropped : ∃ step ∈ steps, step.drops = true
  · simp only [dropped, not_true_eq_false, false_and, true_or, implies_true]
  · rw [and_iff_right dropped, and_iff_right dropped, or_iff_right dropped]
    rw [not_iff_not]
    exact ⟨fun same => same.mpr, fun heeded => ⟨runsOff, heeded⟩⟩

/-! The order of the evaluation. -/

theorem Hook.extras_ascending (hook : Hook κ) : hook.extras.Pairwise (fun a b => a.1 ≤ b.1) := by
  cases tracked : hook.connTrack with
  | none => cases translated : hook.natPriority <;> simp [Hook.extras, tracked, translated]
  | some track =>
    cases translated : hook.natPriority with
    | none => simp [Hook.extras, tracked, translated]
    | some nat =>
      by_cases first : track ≤ nat
      · simp [Hook.extras, tracked, translated, first]
      · simp [Hook.extras, tracked, translated, first, Int.le_of_lt (Int.not_le.mp first)]

variable {extras : List (Int × Extra)} {chains : List (BaseChain κ)}

theorem schedule_perm (extras : List (Int × Extra)) (chains : List (BaseChain κ)) :
    schedule extras chains ~ extras.map (fun extra => .extra extra.1 extra.2) ++ chains.map .chain := by
  induction chains generalizing extras with
  | nil => simp [schedule]
  | cons bc rest ih =>
    let sooner (extra : Int × Extra) : Bool := extra.1 < bc.info.priority
    have parts := congrArg (map fun extra => (Item.extra extra.1 extra.2 : Item κ))
      (takeWhile_append_dropWhile (p := sooner) (l := extras))
    rw [map_append] at parts
    rw [schedule, ← parts, append_assoc, map_cons]
    exact (((ih _).cons _).trans perm_middle.symm).append_left _

theorem mem_schedule {item : Item κ} (member : item ∈ schedule extras chains) :
    (∃ extra ∈ extras, item = .extra extra.1 extra.2) ∨ ∃ bc ∈ chains, item = .chain bc := by
  rcases mem_append.mp ((schedule_perm extras chains).mem_iff.mp member) with inExtras | inChains
  · obtain ⟨extra, found, rfl⟩ := mem_map.mp inExtras
    exact .inl ⟨extra, found, rfl⟩
  · obtain ⟨bc, found, rfl⟩ := mem_map.mp inChains
    exact .inr ⟨bc, found, rfl⟩

theorem le_of_mem_dropWhile {priority : Int}
    (ascending : extras.Pairwise (fun a b => a.1 ≤ b.1)) {extra : Int × Extra}
    (member : extra ∈ extras.dropWhile fun extra => extra.1 < priority) : priority ≤ extra.1 := by
  induction extras with
  | nil => cases member
  | cons head rest ih =>
    rw [pairwise_cons] at ascending
    by_cases smaller : head.1 < priority
    · rw [dropWhile_cons_of_pos (by simpa using smaller)] at member
      exact ih ascending.2 member
    rw [dropWhile_cons_of_neg (by simpa using smaller)] at member
    have least := Int.not_lt.mp smaller
    rcases mem_cons.mp member with rfl | later
    · exact least
    · exact least.trans (ascending.1 extra later)

theorem schedule_ascending (extrasAscending : extras.Pairwise (fun a b => a.1 ≤ b.1))
    (chainsAscending : chains.Pairwise (fun a b => a.info.priority ≤ b.info.priority)) :
    (schedule extras chains).Pairwise (fun a b => a.priority ≤ b.priority) := by
  induction chains generalizing extras with
  | nil =>
    rw [schedule, pairwise_map]
    exact extrasAscending
  | cons bc rest ih =>
    rw [pairwise_cons] at chainsAscending
    have dropped := extrasAscending.sublist (dropWhile_sublist fun extra => extra.1 < bc.info.priority)
    have least : ∀ item ∈ schedule
        (extras.dropWhile fun extra => extra.1 < bc.info.priority) rest,
        bc.info.priority ≤ item.priority := by
      intro item member
      rcases mem_schedule member with ⟨extra, found, rfl⟩ | ⟨other, found, rfl⟩
      · exact le_of_mem_dropWhile extrasAscending found
      · exact chainsAscending.1 other found
    rw [schedule, pairwise_append, pairwise_map, pairwise_cons]
    refine ⟨extrasAscending.sublist (takeWhile_sublist _), ⟨least, ih dropped chainsAscending.2⟩, ?_⟩
    intro item before other member
    obtain ⟨extra, found, rfl⟩ := mem_map.mp before
    have smaller : extra.1 < bc.info.priority := by simpa using mem_takeWhile_imp found
    rcases mem_cons.mp member with rfl | later
    · exact Int.le_of_lt smaller
    · exact (Int.le_of_lt smaller).trans (least other later)

def HookTrace (ruleset : Ruleset κ ς ω) (tracking : Tracking ω) (hook : Hook κ) (world : ω)
    (steps : List Step) : Prop :=
  Trace ruleset tracking hook.nat.baseChains (schedule hook.extras hook.filter.baseChains)
    (⟨.nftContinue, none⟩, world) steps

/-- Netfilter accepts the packet: every base chain that it meets lets it pass. -/
def NetfilterAccepts (ruleset : Ruleset κ ς ω) (tracking : Tracking ω) (hook : Hook κ) (world : ω) : Prop :=
  ∀ steps, HookTrace ruleset tracking hook world steps → ∀ step ∈ steps, step.Passes

def PoliciesHeeded (ruleset : Ruleset κ ς ω) (tracking : Tracking ω) (hook : Hook κ) (world : ω) : Prop :=
  ∀ steps, HookTrace ruleset tracking hook world steps → Heeded steps

/-- The evaluation of a hook takes all its base chains and extra evaluators in ascending order of
their priorities, one thing only can happen to the packet there, and the verdict is the one of netfilter exactly when
the drop policies that the packet meets are heeded. -/
theorem evaluateHook_verdict (ruleset : Ruleset κ ς ω) (tracking : Tracking ω) (fuel : Nat)
    (hook : Hook κ) (world : ω) (code : Code)
    (ran : evaluateHook ruleset tracking fuel hook world = some (.ok code)) :
    (schedule hook.extras hook.filter.baseChains).Pairwise (fun a b => a.priority ≤ b.priority) ∧
      (schedule hook.extras hook.filter.baseChains ~
        hook.extras.map (fun extra => .extra extra.1 extra.2) ++ hook.filter.baseChains.map .chain) ∧
      (∃! steps, HookTrace ruleset tracking hook world steps) ∧
      ((code = .nfAccept ↔ NetfilterAccepts ruleset tracking hook world) ↔
        PoliciesHeeded ruleset tracking hook world) := by
  obtain ⟨steps, trace, decides⟩ := evaluateItems_trace ran (.inl rfl)
  have only : ∀ other, HookTrace ruleset tracking hook world other → other = steps :=
    fun other again => again.unique trace
  have accepted : NetfilterAccepts ruleset tracking hook world ↔ ∀ step ∈ steps, step.Passes := by
    constructor
    · exact fun all => all steps trace
    · intro passes other again
      rw [only other again]
      exact passes
  have heeded : PoliciesHeeded ruleset tracking hook world ↔ Heeded steps := by
    constructor
    · exact fun all => all steps trace
    · intro kept other again
      rw [only other again]
      exact kept
  have order := schedule_ascending hook.extras_ascending hook.filter.ascending
  rw [accepted, heeded, decides]
  exact ⟨order, schedule_perm _ _, ⟨steps, trace, only⟩, accepts_passes_iff steps⟩

/-- Two base chains without rules: the first has a drop policy, the second a later priority and
an accept policy. -/
def dropThenAccept : Hook Nat where
  filter := ⟨[⟨0, ⟨0, true⟩, false⟩, ⟨1, ⟨10, false⟩, false⟩], by decide⟩
  nat := ⟨[], by decide⟩
  connTrack := none
  natPriority := none

def noRules : Ruleset Nat Nat Unit where
  rules := fun _ => []
  sets := fun _ => ⟨[], none, fun _ _ => none⟩

def noTracking : Tracking Unit where
  handle := some
  isConnTrackConfigured := fun _ => false
  isNATConfigured := fun _ => false
  configureNoopNAT := some
  applyNAT := id

theorem dropThenAccept_trace : HookTrace noRules noTracking dropThenAccept ()
    [.left .ranOff true, .left .ranOff false] :=
  .next rfl (.off _) (by decide) (.next rfl (.off _) (by decide) (.done _))

theorem earlier_drop_policy_ignored :
    evaluateHook noRules noTracking 1 dropThenAccept () = some (.ok .nfAccept) ∧
      ¬ NetfilterAccepts noRules noTracking dropThenAccept () := by
  constructor
  · rfl
  · intro accepts
    have passes := accepts _ dropThenAccept_trace (.left .ranOff true) mem_cons_self
    rcases passes with impossible | ⟨-, impossible⟩ <;> cases impossible

/-- Chain 0 calls chain 2, which a map makes return, and accepts; chain 1 goes to chain 3, which
returns. -/
def callAndMap : Ruleset Nat Nat Unit where
  rules
    | 0 => [[.immediate ⟨.nftJump, some 2⟩], [.immediate ⟨.nfAccept, none⟩]]
    | 1 => [[.immediate ⟨.nftGoto, some 3⟩]]
    | 2 => [[.lookup 0 0 false true]]
    | 3 => [[.immediate ⟨.nftReturn, none⟩]]
    | _ => []
  sets := fun _ => ⟨[⟨some ⟨.nftReturn, none⟩, id, []⟩], none, fun _ _ => some 0⟩

def acceptThenDrop : Hook Nat where
  filter := ⟨[⟨0, ⟨0, false⟩, false⟩, ⟨1, ⟨10, true⟩, false⟩], by decide⟩
  nat := ⟨[], by decide⟩
  connTrack := none
  natPriority := none

theorem acceptThenDrop_heeded :
    evaluateHook callAndMap noTracking 2 acceptThenDrop () = some (.ok .nfDrop) ∧
      PoliciesHeeded callAndMap noTracking acceptThenDrop () := by
  have trace : HookTrace callAndMap noTracking acceptThenDrop ()
      [.left .accepted false, .left .ranOff true] :=
    .next rfl (.call rfl rfl rfl (.returned rfl rfl) (.accept rfl rfl)) (by decide)
      (.next rfl (.tailCall rfl rfl rfl (.returned rfl rfl)) (by decide) (.done _))
  refine ⟨rfl, (evaluateHook_verdict callAndMap noTracking 2 acceptThenDrop () .nfDrop rfl).2.2.2.mp ⟨?_, ?_⟩⟩
  · intro impossible
    cases impossible
  · intro accepts
    have passes := accepts _ trace (.left .ranOff true) (by simp)
    rcases passes with impossible | ⟨-, impossible⟩ <;> cases impossible

end BVisor.Nftables
