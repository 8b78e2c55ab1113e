import BVisor.Data.Paths
import BVisor.Nftables.Registration
import BVisor.Nftables.Verdicts

/-! The graph of the jumps and gotos of a ruleset, and when every evaluation of a packet ends within
the nested jump limit. -/

namespace BVisor.Nftables

open List hiding set

open Data Function Option

variable {κ ς ω : Type} {rule : Rule κ ς ω} {rules : List (Rule κ ς ω)} {op : Operation κ ς ω}
  {element : Element κ ω} {jumpDepth : Nat}

/-! The graph. -/

structure Leap where
  /-- By a jump, not by a goto. -/
  jumps : Bool
  /-- Through an element of a map, not by an immediate operation. -/
  mapped : Bool
deriving DecidableEq

def Verdict.leap (mapped : Bool) (verdict : Verdict κ) : Option (Leap × κ) :=
  match verdict.code, verdict.chain with
  | .nftJump, some chain => some (⟨true, mapped⟩, chain)
  | .nftGoto, some chain => some (⟨false, mapped⟩, chain)
  | _, _ => none

def NftSet.verdicts (set : NftSet κ ω) : List (Verdict κ) :=
  (set.elements ++ set.catchAllElem.toList).filterMap Element.verdict

def Operation.leaps (sets : ς → NftSet κ ω) : Operation κ ς ω → List (Leap × κ)
  | .immediate verdict => (verdict.leap false).toList
  | .lookup set _ _ true => (sets set).verdicts.filterMap (Verdict.leap true)
  | .lookup _ _ _ false => []
  | .other _ => []

def Rule.leaps (sets : ς → NftSet κ ω) (rule : Rule κ ς ω) : List (Leap × κ) :=
  rule.flatMap (Operation.leaps sets)

def Edge (ruleset : Ruleset κ ς ω) (chain : κ) (leap : Leap) (target : κ) : Prop :=
  ∃ rule ∈ ruleset.rules chain, (leap, target) ∈ Rule.leaps ruleset.sets rule

def jumpCount (leaps : List Leap) : Nat := leaps.countP Leap.jumps

theorem jumpCount_cons (leap : Leap) (rest : List Leap) :
    jumpCount (leap :: rest) = jumpCount rest + leap.jumps.toNat := by
  cases jumps : leap.jumps <;> simp [jumpCount, jumps]

/-! What a rule can jump to. -/

section Targets

variable {ruleset : Ruleset κ ς ω} {mapped : Bool} {leap : Leap} {target : κ}

theorem Verdict.leap_jumps {verdict : Verdict κ} (found : verdict.leap mapped = some (leap, target))
    (other : Bool) : verdict.leap other = some (⟨leap.jumps, other⟩, target) := by
  obtain ⟨code, chain⟩ := verdict
  cases chain with
  | none => cases code <;> cases found
  | some chain => cases code <;> cases found <;> rfl

variable {regs : Regs κ ω}

theorem Effect.evaluate_leap {effect : Effect ω}
    (found : (effect.evaluate regs).1.leap mapped = some (leap, target)) :
    regs.1.leap mapped = some (leap, target) := by
  rw [Effect.evaluate] at found
  split at found
  · exact found
  · next code _ => cases code <;> cases found

section

variable (start : regs.1.code = .nftContinue)
include start

theorem leap_of_continue : regs.1.leap mapped = none := by
  rw [Verdict.leap, start]

theorem Element.evaluate_leap {fillData : Bool}
    (found : (element.evaluate fillData regs).1.leap mapped = some (leap, target)) :
    fillData = true ∧ ∃ verdict, element.verdict = some verdict ∧
      verdict.leap mapped = some (leap, target) := by
  have kept : ∀ (ops : List (Effect ω)) (filled : Regs κ ω),
      (ops.foldl (fun regs op => Effect.evaluate op regs) filled).1.leap mapped =
        some (leap, target) → filled.1.leap mapped = some (leap, target) := by
    intro ops
    induction ops with
    | nil => exact fun filled same => same
    | cons op ops ih => exact fun filled later => Effect.evaluate_leap (ih _ later)
  have idle := @leap_of_continue _ _ mapped _ start
  have filled := kept _ _ found
  cases fillData with
  | false =>
    rw [if_neg (by simp), idle] at filled
    cases filled
  | true =>
    rw [if_pos rfl] at filled
    cases verdict : element.verdict with
    | none =>
      simp only [verdict, idle, reduceCtorEq] at filled
    | some verdict =>
      simp only [verdict] at filled
      exact ⟨rfl, _, rfl, filled⟩

theorem NftSet.evaluate_leap {set : NftSet κ ω} {sregIdx : Nat} {invert fillData : Bool}
    (found : (set.evaluate sregIdx invert fillData regs).1.leap mapped = some (leap, target)) :
    fillData = true ∧ ∃ verdict ∈ set.verdicts, verdict.leap mapped = some (leap, target) := by
  have idle := @leap_of_continue _ _ mapped _ start
  have ofElement : ∀ element ∈ set.elements ++ set.catchAllElem.toList,
      (element.evaluate fillData regs).1.leap mapped = some (leap, target) →
      fillData = true ∧ ∃ verdict ∈ set.verdicts, verdict.leap mapped = some (leap, target) := by
    intro element member evaluated
    obtain ⟨fills, verdict, has, leaps⟩ := Element.evaluate_leap start evaluated
    exact ⟨fills, verdict, mem_filterMap.mpr ⟨element, member, has⟩, leaps⟩
  rw [NftSet.evaluate] at found
  split at found
  · next index _ _ =>
    cases fetched : set.elements[index]? with
    | none =>
      simp only [fetched, idle, reduceCtorEq] at found
    | some element =>
      simp only [fetched] at found
      exact ofElement element (mem_append_left _ (mem_of_getElem? fetched)) found
  · rw [idle] at found
    cases found
  · next element _ catchAll =>
    exact ofElement element (mem_append_right _ (by rw [catchAll]; simp)) found
  · cases found

theorem Operation.evaluate_leap
    (found : (op.evaluate ruleset regs).1.leap mapped = some (leap, target)) :
    ∃ other, (⟨leap.jumps, other⟩, target) ∈ op.leaps ruleset.sets := by
  cases op with
  | immediate verdict =>
    exact ⟨false, mem_toList.mpr (Verdict.leap_jumps found false)⟩
  | lookup set sregIdx invert fillData =>
    obtain ⟨rfl, verdict, member, leaps⟩ := NftSet.evaluate_leap start found
    exact ⟨true, mem_filterMap.mpr ⟨verdict, member, Verdict.leap_jumps leaps true⟩⟩
  | other effect =>
    have same := Effect.evaluate_leap found
    rw [leap_of_continue start] at same
    cases same

/-- A rule jumps or goes only where one of its operations leads. -/
theorem Rule.evaluate_leap
    (found : (Rule.evaluate ruleset regs rule).1.leap mapped = some (leap, target)) :
    ∃ other, (⟨leap.jumps, other⟩, target) ∈ Rule.leaps ruleset.sets rule := by
  induction rule generalizing regs with
  | nil =>
    rw [Rule.evaluate, Verdict.leap, start] at found
    cases found
  | cons op rest ih =>
    simp only [Rule.evaluate] at found
    split at found
    · obtain ⟨other, member⟩ := Operation.evaluate_leap start found
      exact ⟨other, mem_flatMap.mpr ⟨op, mem_cons_self, member⟩⟩
    next continues =>
    obtain ⟨other, member⟩ := ih (not_not.mp continues) found
    obtain ⟨inner, innerMember, leads⟩ := mem_flatMap.mp member
    exact ⟨other, mem_flatMap.mpr ⟨inner, mem_cons_of_mem _ innerMember, leads⟩⟩

end

end Targets

/-! Evaluation within a bound on the jumps. -/

def Settles {α : Type} (result : Option (Except Failure α)) : Prop :=
  ∃ answer, result = some answer ∧ answer ≠ .error .exceededNestedJumpLimit

theorem Settles.ok {α : Type} {value : α} : Settles (some (.ok value)) := ⟨_, rfl, nofun⟩

theorem Settles.error {α : Type} {failure : Failure} (other : failure ≠ .exceededNestedJumpLimit) :
    Settles (some (.error failure : Except Failure α)) :=
  ⟨_, rfl, fun same => other (Except.error.inj same)⟩

section Settling

variable {ruleset : Ruleset κ ς ω} {regs : Regs κ ω}

theorem afterRule_settles {next : Regs κ ω → Evaluated κ ω}
    (continues : ∀ regs : Regs κ ω, regs.1.code = .nftContinue → Settles (next regs)) :
    Settles (afterRule regs next) := by
  obtain ⟨⟨code, chain⟩, world⟩ := regs
  cases code with
  | nftContinue => exact continues _ rfl
  | nftBreak => exact continues _ rfl
  | _ => exact .ok

theorem evaluateRules_settles {call : κ → Nat → Regs κ ω → Evaluated κ ω}
    (start : regs.1.code = .nftContinue)
    (calls : ∀ rule ∈ rules, ∀ leap target, (leap, target) ∈ Rule.leaps ruleset.sets rule →
      ∀ regs, Settles (call target (jumpDepth + leap.jumps.toNat) regs)) :
    Settles (evaluateRules ruleset call jumpDepth rules regs) := by
  induction rules generalizing regs with
  | nil => exact .ok
  | cons rule rest ih =>
    have later : ∀ regs : Regs κ ω, regs.1.code = .nftContinue →
        Settles (evaluateRules ruleset call jumpDepth rest regs) := fun regs continues =>
      ih continues (forall_mem_cons.mp calls).2
    have leads : ∀ leap target,
        (Rule.evaluate ruleset regs rule).1.leap false = some (leap, target) →
        ∀ regs, Settles (call target (jumpDepth + leap.jumps.toNat) regs) := by
      intro leap target found
      obtain ⟨mapped, member⟩ := Rule.evaluate_leap start found
      exact calls rule mem_cons_self ⟨leap.jumps, mapped⟩ target member
    simp only [evaluateRules]
    generalize Rule.evaluate ruleset regs rule = after at leads
    obtain ⟨⟨code, chain⟩, world⟩ := after
    cases code with
    | nftGoto =>
      cases chain with
      | none => exact .error (by decide)
      | some target => exact leads ⟨false, false⟩ target rfl _
    | nftJump =>
      cases chain with
      | none => exact .error (by decide)
      | some target =>
        obtain ⟨answer, returned, fine⟩ := leads ⟨true, false⟩ target rfl (⟨.nftJump, some target⟩, world)
        simp only [Bool.toNat_true] at returned
        cases answer with
        | error reason => simpa only [returned] using ⟨_, rfl, fine⟩
        | ok regs =>
          simp only [returned]
          exact afterRule_settles later
    | _ => exact afterRule_settles later

/-- A chain ends within the limit if every path from it has jumps left. -/
theorem evaluateFromRule_settles {rank : κ → Nat}
    (falls : ∀ chain leap target, Edge ruleset chain leap target → rank target < rank chain)
    {fuel jumpDepth : Nat} {chain : κ} (enough : rank chain < fuel)
    (within : ∀ leaps last, Path (Edge ruleset) chain leaps last →
      jumpDepth + jumpCount leaps < nestedJumpLimit) (regs : Regs κ ω) :
    Settles (evaluateFromRule ruleset fuel chain jumpDepth regs) := by
  induction fuel generalizing chain jumpDepth regs with
  | zero => exact absurd enough (Nat.not_lt_zero _)
  | succ fuel ih =>
    have shallow : ¬ jumpDepth ≥ nestedJumpLimit := Nat.not_le.mpr (within [] chain (.here chain))
    rw [evaluateFromRule, if_neg shallow]
    refine evaluateRules_settles rfl fun rule member leap target leads regs => ?_
    have edge : Edge ruleset chain leap target := ⟨rule, member, leads⟩
    have below := falls chain leap target edge
    refine ih (by omega) (fun leaps last path => ?_) regs
    have bound := within (leap :: leaps) last (.along edge path)
    rw [jumpCount_cons] at bound
    omega

def Hook.baseChains (hook : Hook κ) : List (BaseChain κ) :=
  hook.filter.baseChains ++ hook.nat.baseChains

variable {tracking : Tracking ω} {fuel : Nat} {natBaseChains : List (BaseChain κ)}

section

variable (chains : ∀ bc ∈ natBaseChains, ∀ regs, Settles (evaluateChain ruleset fuel bc.chain regs))
include chains

theorem evaluateNATBaseChains_settles (regs : Regs κ ω) :
    Settles (evaluateNATBaseChains ruleset tracking fuel natBaseChains regs) := by
  induction natBaseChains generalizing regs with
  | nil =>
    rw [evaluateNATBaseChains]
    split
    · exact .error (by decide)
    · exact .ok
  | cons bc rest ih =>
    have later := ih (forall_mem_cons.mp chains).2
    rw [evaluateNATBaseChains]
    split
    · exact later regs
    obtain ⟨answer, evaluated, fine⟩ := chains bc mem_cons_self regs
    rw [evaluated]
    cases answer with
    | error reason => exact .error (mt (congrArg _) fine)
    | ok after =>
      change Settles (if isTerminalCode after.1.code then _ else _)
      split
      · exact .ok
      · split
        · exact .ok
        · exact later after

theorem evaluateNAT_settles
    (regs : Regs κ ω) : Settles (evaluateNAT ruleset tracking fuel natBaseChains regs) := by
  rw [evaluateNAT]
  split
  · exact .ok
  by_cases done : tracking.isNATConfigured regs.2 = true
  · simp only [if_pos done]
    exact .ok
  simp only [if_neg done]
  obtain ⟨answer, evaluated, fine⟩ :=
    @evaluateNATBaseChains_settles κ ς ω ruleset tracking fuel natBaseChains chains regs
  rw [evaluated]
  cases answer with
  | error reason => exact .error (mt (congrArg _) fine)
  | ok after =>
    obtain ⟨after, configured⟩ := after
    cases configured <;> exact .ok

end

theorem evaluateItems_settles {items : List (Item κ)}
    (natChains : ∀ bc ∈ natBaseChains, ∀ regs,
      Settles (evaluateChain ruleset fuel bc.chain regs))
    (chains : ∀ bc, .chain bc ∈ items → ∀ regs,
      Settles (evaluateChain ruleset fuel bc.chain regs))
    (lastEvaluatedChain : Option (BaseChain κ)) (regs : Regs κ ω) :
    Settles (evaluateItems ruleset tracking fuel natBaseChains items lastEvaluatedChain regs) := by
  induction items generalizing lastEvaluatedChain regs with
  | nil =>
    obtain ⟨⟨code, chain⟩, world⟩ := regs
    cases lastEvaluatedChain <;> cases code <;> exact .ok
  | cons item rest ih =>
    have later := ih fun bc member => chains bc (mem_cons_of_mem _ member)
    have goes : ∀ (last : Option (BaseChain κ)) (after : Regs κ ω),
        Settles (if isTerminalCode after.1.code then some (.ok after.1.code)
          else evaluateItems ruleset tracking fuel natBaseChains rest last after) := by
      intro last after
      split
      · exact .ok
      · exact later last after
    cases item with
    | extra priority extra =>
      cases extra with
      | connTrack =>
        simp only [evaluateItems]
        cases tracking.handle regs.2 with
        | none => exact .error (by decide)
        | some world => exact goes lastEvaluatedChain (regs.1, world)
      | nat =>
        simp only [evaluateItems]
        obtain ⟨answer, evaluated, fine⟩ :=
          @evaluateNAT_settles κ ς ω ruleset tracking fuel natBaseChains natChains regs
        rw [evaluated]
        cases answer with
        | error reason => exact .error (mt (congrArg _) fine)
        | ok after => exact goes _ _
    | chain bc =>
      simp only [evaluateItems]
      split
      · exact later _ _
      obtain ⟨answer, evaluated, fine⟩ := chains bc mem_cons_self regs
      rw [evaluated]
      cases answer with
      | error reason => exact .error (mt (congrArg _) fine)
      | ok after => exact goes _ _

end Settling

/-! Rulesets that are built message by message. -/

variable [DecidableEq κ] [DecidableEq ς]

def Adds (state : State κ ς ω) : Message κ ς ω → κ → Leap → κ → Prop
  | .newRule chain _ rule, source, leap, target =>
    source = chain ∧ (leap, target) ∈ Rule.leaps state.sets rule
  | .newElement set element _, source, leap, target
  | .newCatchAll set element, source, leap, target =>
    (∃ rule ∈ state.rules source, ∃ sregIdx invert, .lookup set sregIdx invert true ∈ rule) ∧
      ∃ verdict, element.verdict = some verdict ∧ verdict.leap true = some (leap, target)
  | _, _, _, _ => False

/-- The condition on a message in a state: no edge that it adds closes a loop through an element
of a map, and none makes the jumps from a base chain reach the nested jump limit. -/
structure Guarded (state : State κ ς ω) (message : Message κ ς ω) : Prop where
  unlooped : ∀ source leap target, Adds state message source leap target →
    ∀ leaps, Path (Edge state.toRuleset) target leaps source →
      ∀ other ∈ leap :: leaps, other.mapped = false
  shallow : ∀ source leap target, Adds state message source leap target →
    ∀ base, state.chains base = some .base →
    ∀ above, Path (Edge state.toRuleset) base above source →
    ∀ below last, Path (Edge state.toRuleset) target below last →
      jumpCount (above ++ leap :: below) < nestedJumpLimit

/-- Every packet is evaluated, at every hook that runs base chains of the ruleset, without
exceeding the nested jump limit. -/
def Finishes (state : State κ ς ω) : Prop :=
  ∀ hook : Hook κ, (∀ bc ∈ hook.baseChains, state.chains bc.chain = some .base) →
    ∃ fuel, ∀ more, fuel ≤ more → ∀ (tracking : Tracking ω) (world : ω),
      Settles (evaluateHook state.toRuleset tracking more hook world)

structure Sound (state : State κ ς ω) : Prop where
  ranked : Ranked (Edge state.toRuleset)
  bounded : ∀ base, state.chains base = some .base → ∀ leaps last,
    Path (Edge state.toRuleset) base leaps last → jumpCount leaps < nestedJumpLimit
  absent : ∀ chain, state.chains chain = none → state.rules chain = []

inductive Stepped (state : State κ ς ω) : Message κ ς ω → State κ ς ω → Prop where
  | same : Stepped state .other state
  | created {chain kind} (fresh : state.chains chain = none) :
      Stepped state (.newChain chain kind)
        { state with chains := Function.update state.chains chain (some kind) }
  | removed {chain} :
      Stepped state (.deleteChain chain)
        { state.setRules chain [] with chains := Function.update state.chains chain none }
  | unregistered {message chain rules} (fewer : rules ⊆ state.rules chain)
      (idle : ∀ source leap target, ¬ Adds state message source leap target) :
      Stepped state message (state.setRules chain rules)
  | registered {chain index rule} (present : state.chains chain ≠ none)
      (checked : checkRule state.rules chain rule = .ok ()) :
      Stepped state (.newRule chain index rule) (state.setRules chain ((state.rules chain).insertIdx index rule))
  | shrunk {message set content}
      (fewer : ∀ verdict ∈ content.verdicts, verdict ∈ (state.sets set).verdicts)
      (idle : ∀ source leap target, ¬ Adds state message source leap target) :
      Stepped state message (state.setSet set content)
  | grown {message set element content}
      (asked : (∃ backend, message = .newElement set element backend) ∨
        message = .newCatchAll set element)
      (more : ∀ verdict ∈ content.verdicts,
        verdict ∈ (state.sets set).verdicts ∨ element.verdict = some verdict) :
      Stepped state message (state.setSet set content)

section Steps

variable {admits : State κ ς ω → Message κ ς ω → Bool} {state next : State κ ς ω}
  {message : Message κ ς ω} {leap : Leap}

omit [DecidableEq ς] in
theorem setRules_edge {chain source target : κ}
    (edge : Edge (state.setRules chain rules).toRuleset source leap target) :
    Edge state.toRuleset source leap target ∨
      source = chain ∧ ∃ rule ∈ rules, (leap, target) ∈ Rule.leaps state.sets rule := by
  obtain ⟨rule, member, leads⟩ := edge
  change rule ∈ Function.update state.rules chain rules source at member
  by_cases same : source = chain
  · subst same
    rw [update_self] at member
    exact .inr ⟨rfl, rule, member, leads⟩
  · rw [update_of_ne same] at member
    exact .inl ⟨rule, member, leads⟩

variable {source target : κ} {leaps : List Leap}

omit [DecidableEq κ] in
theorem setSet_edge {set : ς} {content : NftSet κ ω}
    (edge : Edge (state.setSet set content).toRuleset source leap target) :
    Edge state.toRuleset source leap target ∨
      ∃ rule ∈ state.rules source, ∃ sregIdx invert, .lookup set sregIdx invert true ∈ rule ∧
        ∃ verdict ∈ content.verdicts, verdict.leap true = some (leap, target) := by
  obtain ⟨rule, member, leads⟩ := edge
  obtain ⟨op, opMember, leaps⟩ := mem_flatMap.mp leads
  have keeps : (leap, target) ∈ op.leaps state.sets → Edge state.toRuleset source leap target :=
    fun old => ⟨rule, member, mem_flatMap.mpr ⟨op, opMember, old⟩⟩
  cases op with
  | immediate verdict => exact .inl (keeps leaps)
  | other effect => cases leaps
  | lookup looked sregIdx invert fillData =>
    cases fillData with
    | false => cases leaps
    | true =>
      by_cases same : looked = set
      · subst same
        simp only [Operation.leaps, State.setSet, update_self, mem_filterMap] at leaps
        exact .inr ⟨rule, member, sregIdx, invert, opMember, leaps⟩
      · simp only [Operation.leaps, State.setSet, update_of_ne same] at leaps
        exact .inl (keeps leaps)

theorem Stepped.edge (stepped : Stepped state message next)
    (edge : Edge next.toRuleset source leap target) :
    Edge state.toRuleset source leap target ∨ Adds state message source leap target := by
  cases stepped with
  | same | created => exact .inl edge
  | removed =>
    rcases setRules_edge edge with old | ⟨-, rule, member, -⟩
    · exact .inl old
    · cases member
  | unregistered fewer idle =>
    rcases setRules_edge edge with old | ⟨rfl, rule, member, leads⟩
    · exact .inl old
    · exact .inl ⟨rule, fewer member, leads⟩
  | registered present checked =>
    rcases setRules_edge edge with old | ⟨rfl, rule, member, leads⟩
    · exact .inl old
    · rcases eq_or_mem_of_mem_insertIdx member with rfl | old
      · exact .inr ⟨rfl, leads⟩
      · exact .inl ⟨rule, old, leads⟩
  | shrunk fewer idle =>
    rcases setSet_edge edge with
      old | ⟨rule, member, sregIdx, invert, looks, verdict, has, leads⟩
    · exact .inl old
    · exact .inl ⟨rule, member, mem_flatMap.mpr ⟨_, looks,
        mem_filterMap.mpr ⟨verdict, fewer verdict has, leads⟩⟩⟩
  | grown asked more =>
    rcases setSet_edge edge with
      old | ⟨rule, member, sregIdx, invert, looks, verdict, has, leads⟩
    · exact .inl old
    rcases more verdict has with known | new
    · exact .inl ⟨rule, member, mem_flatMap.mpr ⟨_, looks, mem_filterMap.mpr ⟨verdict, known, leads⟩⟩⟩
    · rcases asked with ⟨backend, rfl⟩ | rfl <;>
        exact .inr ⟨⟨rule, member, sregIdx, invert, looks⟩, verdict, new, leads⟩

/-! What the check for loops excludes. -/

omit [DecidableEq κ] [DecidableEq ς] in
theorem forM_ok {α ε : Type} {check : α → Except ε Unit} {list : List α}
    (passed : list.forM check = .ok ()) {value : α} (member : value ∈ list) :
    check value = .ok () := by
  induction list with
  | nil => cases member
  | cons head tail ih =>
    cases checked : check head with
    | error reason =>
      have failed : (head :: tail).forM check = .error reason := by
        change (check head >>= fun _ => tail.forM check) = .error reason
        rw [checked]
        rfl
      cases failed.symm.trans passed
    | ok =>
      change (check head >>= fun _ => tail.forM check) = .ok () at passed
      rw [checked] at passed
      rcases mem_cons.mp member with rfl | later
      · exact checked
      · exact ih passed later

omit [DecidableEq κ] [DecidableEq ς] in
theorem isJumpOrGotoOperation_of_leap {sets : ς → NftSet κ ω}
    {target : κ} (leads : (leap, target) ∈ op.leaps sets) (immediate : leap.mapped = false) :
    isJumpOrGotoOperation op = some (some target) := by
  cases op with
  | immediate verdict =>
    obtain ⟨code, chain⟩ := verdict
    have found := mem_toList.mp leads
    cases chain with
    | none => cases code <;> cases found
    | some chain => cases code <;> cases found <;> rfl
  | lookup set sregIdx invert fillData =>
    cases fillData with
    | false => cases leads
    | true =>
      obtain ⟨⟨code, chain⟩, -, found⟩ := mem_filterMap.mp leads
      cases chain with
      | none => cases code <;> cases found
      | some chain => cases code <;> cases found <;> cases immediate
  | other effect => cases leads

omit [DecidableEq ς] in
/-- A chain that passes the check does not lead to the source by immediate operations. -/
theorem checkLoops_unreachable {chain last : κ} {remaining : Nat}
    (path : Path (Edge state.toRuleset) chain leaps last)
    (passed : checkLoops state.rules source remaining chain = .ok ())
    (immediate : ∀ leap ∈ leaps, leap.mapped = false) : last ≠ source := by
  induction path generalizing remaining with
  | here chain =>
    cases remaining with
    | zero => cases passed
    | succ remaining =>
      rw [checkLoops] at passed
      split at passed
      · cases passed
      · next other => exact other
  | along first rest ih =>
    cases remaining with
    | zero => cases passed
    | succ remaining =>
      rw [checkLoops] at passed
      split at passed
      · cases passed
      obtain ⟨rule, member, leads⟩ := first
      obtain ⟨op, opMember, leaps⟩ := mem_flatMap.mp leads
      have checked := forM_ok passed (mem_flatten.mpr ⟨rule, member, opMember⟩)
      rw [isJumpOrGotoOperation_of_leap leaps (immediate _ mem_cons_self)] at checked
      exact ih checked (forall_mem_cons.mp immediate).2

omit [DecidableEq ς] in
theorem checkRule_unreachable (passed : checkRule state.rules source rule = .ok ())
    (leads : (leap, target) ∈ Rule.leaps state.sets rule)
    (path : Path (Edge state.toRuleset) target leaps source) :
    ∃ other ∈ leap :: leaps, other.mapped = true := by
  by_contra none
  have immediate : ∀ other ∈ leap :: leaps, other.mapped = false := by
    intro other member
    exact Bool.eq_false_iff.mpr fun mapped => none ⟨other, member, mapped⟩
  obtain ⟨op, opMember, found⟩ := mem_flatMap.mp leads
  have checked := forM_ok passed opMember
  rw [isJumpOrGotoOperation_of_leap found (immediate _ mem_cons_self)] at checked
  exact checkLoops_unreachable path checked
    (fun other later => immediate other (mem_cons_of_mem _ later)) rfl

/-! What a guarded step keeps. -/

section

variable (stepped : Stepped state message next)
include stepped

theorem Stepped.adds_cases {other last : κ}
    {leap more : Leap} (first : Adds state message source leap target)
    (second : Adds state message other more last) : source = other ∨ target = last := by
  cases stepped with
  | same | created | removed => cases first
  | unregistered fewer idle | shrunk fewer idle => exact (idle _ _ _ first).elim
  | registered present checked => exact .inl (first.1.trans second.1.symm)
  | grown asked more =>
    rcases asked with ⟨backend, rfl⟩ | rfl <;>
      obtain ⟨-, verdict, has, leads⟩ := first <;>
      obtain ⟨-, again, hasAgain, leadsAgain⟩ := second <;>
      cases has.symm.trans hasAgain <;>
      cases leads.symm.trans leadsAgain <;>
      exact .inr rfl

theorem Stepped.unreachable (guarded : Guarded state message)
    (added : Adds state message source leap target)
    (path : Path (Edge state.toRuleset) target leaps source) : False := by
  have immediate := guarded.unlooped source leap target added leaps path
  cases stepped with
  | same | created | removed => exact added
  | unregistered fewer idle | shrunk fewer idle => exact idle _ _ _ added
  | registered present checked =>
    obtain ⟨rfl, leads⟩ := added
    obtain ⟨other, member, mapped⟩ := checkRule_unreachable checked leads path
    rw [immediate other member] at mapped
    cases mapped
  | grown asked more =>
    have first := immediate leap mem_cons_self
    rcases asked with ⟨backend, rfl⟩ | rfl <;>
      obtain ⟨-, ⟨code, chain⟩, -, leads⟩ := added <;>
      cases chain <;> cases code <;> cases leads <;> cases first

theorem Stepped.separated
    (guarded : Guarded state message) : Separated (Edge state.toRuleset) (Adds state message) := by
  intro source leap target first other more last second leaps path
  rcases stepped.adds_cases first second with rfl | rfl
  · exact stepped.unreachable guarded first path
  · exact stepped.unreachable guarded second path

end

omit [DecidableEq κ] [DecidableEq ς] in
theorem Adds.finite (state : State κ ς ω) (message : Message κ ς ω) :
    ∃ targets : List κ, ∀ source leap target, Adds state message source leap target →
      target ∈ targets := by
  cases message with
  | newRule chain index rule =>
    refine ⟨(Rule.leaps state.sets rule).map Prod.snd, fun source leap target added => ?_⟩
    exact mem_map.mpr ⟨(leap, target), added.2, rfl⟩
  | newElement set element backend | newCatchAll set element =>
    refine ⟨(element.verdict.bind (Verdict.leap true)).toList.map Prod.snd, ?_⟩
    intro source leap target ⟨_, verdict, has, leads⟩
    simp [has, leads]
  | _ => exact ⟨[], fun _ _ _ added => added.elim⟩

theorem Stepped.base (stepped : Stepped state message next) (sound : Sound state) {chain : κ}
    (base : next.chains chain = some .base) :
    state.chains chain = some .base ∨ next.rules chain = [] := by
  cases stepped with
  | @created made kind fresh =>
    by_cases same : chain = made
    · subst same
      exact .inr (sound.absent chain fresh)
    · exact .inl ((update_of_ne same _ _).symm.trans base)
  | @removed gone =>
    by_cases same : chain = gone
    · subst same
      exact .inr (update_self ..)
    · exact .inl ((update_of_ne same _ _).symm.trans base)
  | _ => exact .inl base

theorem Stepped.absent (stepped : Stepped state message next) (sound : Sound state) {chain : κ}
    (absent : next.chains chain = none) : next.rules chain = [] := by
  cases stepped with
  | same | shrunk | grown => exact sound.absent chain absent
  | @created made kind fresh =>
    by_cases same : chain = made
    · subst same
      exact sound.absent chain fresh
    · exact sound.absent chain ((update_of_ne same _ _).symm.trans absent)
  | @removed gone =>
    by_cases same : chain = gone
    · subst same
      exact update_self ..
    · have before : state.chains chain = none := (update_of_ne same _ _).symm.trans absent
      exact (update_of_ne same _ _).trans (sound.absent chain before)
  | @unregistered _ changed rules fewer idle =>
    have before := sound.absent chain absent
    by_cases same : chain = changed
    · subst same
      rw [before] at fewer
      exact (update_self ..).trans (eq_nil_of_subset_nil fewer)
    · exact (update_of_ne same _ _).trans before
  | @registered changed index rule present checked =>
    by_cases same : chain = changed
    · subst same
      exact (present absent).elim
    · exact (update_of_ne same _ _).trans (sound.absent chain absent)

theorem Sound.step (sound : Sound state) (guarded : Guarded state message)
    (stepped : Stepped state message next) : Sound next := by
  have included : ∀ source leap target, Edge next.toRuleset source leap target →
      Edge state.toRuleset source leap target ∨ Adds state message source leap target :=
    fun _ _ _ edge => stepped.edge edge
  have separated := stepped.separated guarded
  obtain ⟨targets, finite⟩ := Adds.finite state message
  refine ⟨sound.ranked.extend included separated finite, ?_, fun chain => stepped.absent sound⟩
  intro base isBase leaps last path
  rcases stepped.base sound isBase with before | empty
  · rcases path.split included separated with
      whole | ⟨above, leap, below, source, target, rfl, up, added, down⟩
    · exact sound.bounded base before leaps last whole
    · exact guarded.shallow source leap target added base before above up below last down
  · cases path with
    | here => decide
    | along first rest =>
      obtain ⟨rule, member, -⟩ := first
      rw [empty] at member
      cases member

end Steps

omit [DecidableEq κ] [DecidableEq ς] in
theorem Sound.empty : Sound (State.empty : State κ ς ω) where
  ranked := ⟨fun _ => 0, fun _ _ _ ⟨_, member, _⟩ => nomatch member⟩
  bounded := fun _ base => nomatch base
  absent := fun _ _ => rfl

omit [DecidableEq κ] [DecidableEq ς] in
theorem Sound.finishes {state : State κ ς ω} (sound : Sound state) : Finishes state := by
  intro hook isBase
  obtain ⟨rank, falls⟩ := sound.ranked
  obtain ⟨fuel, enough⟩ : ∃ fuel, ∀ bc ∈ hook.baseChains, rank bc.chain < fuel := by
    refine ⟨(hook.baseChains.map fun bc => rank bc.chain).sum + 1, fun bc member => ?_⟩
    exact Nat.lt_succ_of_le (le_sum_of_mem (mem_map_of_mem member))
  refine ⟨fuel, fun more grows tracking world => ?_⟩
  have settles : ∀ bc ∈ hook.baseChains, ∀ regs,
      Settles (evaluateChain state.toRuleset more bc.chain regs) := by
    intro bc member regs
    refine evaluateFromRule_settles falls (Nat.lt_of_lt_of_le (enough bc member) grows)
      (fun leaps last path => ?_) regs
    rw [Nat.zero_add]
    exact sound.bounded bc.chain (isBase bc member) leaps last path
  refine evaluateItems_settles (fun bc member => settles bc (mem_append_right _ member))
    (fun bc member => settles bc (mem_append_left _ ?_)) none _
  rcases mem_schedule member with ⟨extra, -, impossible⟩ | ⟨other, found, same⟩
  · cases impossible
  · cases same
    exact found

end BVisor.Nftables
