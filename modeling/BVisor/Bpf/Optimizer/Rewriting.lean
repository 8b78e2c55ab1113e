import BVisor.Bpf.Unfolding
import BVisor.Bpf.Optimizer.Passes

/-! Passes that rewrite instructions in place. -/

namespace BVisor.Bpf

open List Option Instruction

variable {insns after : List Instruction} {pc next : Nat} {ins ins' : Instruction} {rewrite : Rewrite}

/-- Control may go from `pc` to `next` in one step. -/
def Edge (insns : List Instruction) (pc next : Nat) : Prop :=
  ∃ ins, insns[pc]? = some ins ∧ next ∈ successors pc ins

def Flows (insns : List Instruction) : Nat → Nat → Prop :=
  Relation.ReflTransGen (Edge insns)

def Reachable (insns : List Instruction) (pc : Nat) : Prop :=
  Flows insns 0 pc

section

variable (wellFormed : WellFormed insns)
include wellFormed

theorem WellFormed.edge_lt (edge : Edge insns pc next) : next < insns.length := by
  obtain ⟨ins, found, member⟩ := edge
  obtain ⟨other, same, _, stays⟩ := wellFormed.inside pc (List.getElem?_eq_some_iff.mp found).1
  rw [found, some.injEq] at same
  exact stays next (same ▸ member)

theorem WellFormed.flows_lt (bound : pc < insns.length) (flows : Flows insns pc next) : next < insns.length := by
  cases flows with
  | refl => exact bound
  | tail _ edge => exact wellFormed.edge_lt edge

theorem WellFormed.valid (found : insns[pc]? = some ins) : ins.Valid := by
  obtain ⟨other, same, valid, _⟩ := wellFormed.inside pc (List.getElem?_eq_some_iff.mp found).1
  rw [found, some.injEq] at same
  exact same ▸ valid

/-- `ins'` may stand for `ins` at `pc`: control stays inside the program and does the same. -/
structure LocalRewrite (insns : List Instruction) (pc : Nat) (ins ins' : Instruction) : Prop where
  valid : ins'.Valid
  stays : ∀ next ∈ successors pc ins', next < insns.length
  sameNode : node (codeTree insns) pc ins' = node (codeTree insns) pc ins

theorem LocalRewrite.refl (found : insns[pc]? = some ins) : LocalRewrite insns pc ins ins :=
  { valid := wellFormed.valid found
    stays := fun _ member => wellFormed.edge_lt ⟨ins, found, member⟩
    sameNode := rfl }

end

structure Rewritten (insns after : List Instruction) : Prop where
  wellFormed : WellFormed after
  length : after.length = insns.length
  tree : ∀ pc, codeTree after pc = codeTree insns pc

theorem Rewritten.refl (wellFormed : WellFormed insns) : Rewritten insns insns :=
  ⟨wellFormed, rfl, fun _ => rfl⟩

theorem Rewritten.trans {middle : List Instruction} (first : Rewritten insns middle)
    (second : Rewritten middle after) : Rewritten insns after :=
  { wellFormed := second.wellFormed
    length := second.length.trans first.length
    tree := fun pc => (second.tree pc).trans (first.tree pc) }

theorem codeTree_rewrite (length : after.length = insns.length)
    (rewrites : ∀ pc ins, insns[pc]? = some ins → ∃ ins', after[pc]? = some ins' ∧
      node (codeTree insns) pc ins' = node (codeTree insns) pc ins) (pc : Nat) :
    codeTree after pc = codeTree insns pc := by
  -- Control only goes forward, so the trees of later places are known to agree.
  induction rest : insns.length - pc using Nat.strong_induction_on generalizing pc with
  | _ rest ih =>
    by_cases bound : pc < insns.length
    · have found : insns[pc]? = some insns[pc] := List.getElem?_eq_getElem bound
      obtain ⟨ins', found', sameNode⟩ := rewrites pc insns[pc] found
      rw [codeTree_node found, codeTree_node found', ← sameNode]
      refine node_congr fun next later => ?_
      exact ih (insns.length - next) (by omega) next rfl
    · rw [codeTree_offEnd (by omega), codeTree_offEnd (by omega)]

theorem rewritten_of_local (wellFormed : WellFormed insns) (length : after.length = insns.length)
    (rewrites : ∀ pc ins, insns[pc]? = some ins → ∃ ins', after[pc]? = some ins' ∧
      LocalRewrite insns pc ins ins') : Rewritten insns after := by
  refine ⟨⟨length ▸ wellFormed.nonempty, fun pc bound => ?_⟩, length, ?_⟩
  · have found : insns[pc]? = some insns[pc] := List.getElem?_eq_getElem (length ▸ bound)
    obtain ⟨ins', found', rewrite⟩ := rewrites pc insns[pc] found
    rw [length]
    exact ⟨ins', found', rewrite.valid, rewrite.stays⟩
  · refine codeTree_rewrite length fun pc ins found => ?_
    obtain ⟨ins', found', rewrite⟩ := rewrites pc ins found
    exact ⟨ins', found', rewrite.sameNode⟩

theorem LocalRewrite.set (wellFormed : WellFormed insns) (found : insns[pc]? = some ins)
    (rewrite : LocalRewrite insns pc ins ins') : Rewritten insns (insns.set pc ins') := by
  have bound := (List.getElem?_eq_some_iff.mp found).1
  refine rewritten_of_local wellFormed length_set fun place other foundOther => ?_
  by_cases same : pc = place
  · subst same
    rw [found, some.injEq] at foundOther
    exact ⟨ins', List.getElem?_set_self bound, foundOther ▸ rewrite⟩
  · exact ⟨other, by rw [List.getElem?_set_ne same, foundOther], .refl wellFormed foundOther⟩

theorem flows_of_set (shortcut : ∀ next ∈ successors pc ins', Flows insns pc next)
    {first last : Nat} (flows : Flows (insns.set pc ins') first last) :
    Flows insns first last := by
  induction flows with
  | refl => exact .refl
  | @tail middle next _ edge ih =>
    obtain ⟨other, found, member⟩ := edge
    by_cases same : pc = middle
    · subst same
      obtain rfl : ins' = other := by
        have bound := (List.getElem?_eq_some_iff.mp found).1
        rw [List.getElem?_set_self (by simpa using bound)] at found
        exact Option.some.inj found
      exact ih.trans (shortcut next member)
    · rw [List.getElem?_set_ne same] at found
      exact ih.tail ⟨other, found, member⟩

/-- What the in-place passes make smaller: conditional jumps weigh more than unconditional ones,
those more than other instructions, and a jump weighs less the longer it is. -/
def weight (ins : Instruction) : Nat :=
  if ins.isConditionalJump then
    65537 + (255 - ins.jumpIfTrue.toNat) + (255 - ins.jumpIfFalse.toNat)
  else if ins.isUnconditionalJump then 1 + (65535 - ins.k.toNat)
  else 0

def totalWeight (insns : List Instruction) : Nat :=
  (insns.map weight).sum

theorem totalWeight_set (found : insns[pc]? = some ins) (lighter : weight ins' < weight ins) :
    totalWeight (insns.set pc ins') < totalWeight insns := by
  induction insns generalizing pc with
  | nil => simp at found
  | cons first rest ih =>
    cases pc with
    | zero =>
      cases found
      simpa [totalWeight] using lighter
    | succ pc =>
      have tail := ih (show rest[pc]? = some ins by simpa using found)
      simp only [totalWeight, set_cons_succ, map_cons, sum_cons] at tail ⊢
      omega

/-- A rewrite that never panics on a well-formed program, and if it changes the instruction at
`pc`, then to a lighter one that does the same and opens no new paths. -/
def SoundRewrite (rewrite : Rewrite) : Prop :=
  ∀ insns pc ins, WellFormed insns → insns[pc]? = some ins →
    ∃ result, rewrite insns pc ins = some result ∧
      ∀ ins', result = some ins' → LocalRewrite insns pc ins ins' ∧
        (∀ next ∈ successors pc ins', Flows insns pc next) ∧ weight ins' < weight ins

structure InPlace (insns after : List Instruction) (changed : Bool) : Prop where
  rewritten : Rewritten insns after
  flows : ∀ first last, Flows after first last → Flows insns first last
  lighter : changed = true → totalWeight after < totalWeight insns
  unchanged : changed = false → after = insns

theorem sweepFrom_sound (sound : SoundRewrite rewrite) {count : Nat}
    {original : List Instruction} {changed : Bool} (sofar : InPlace original insns changed)
    (covers : pc + count = insns.length) :
    ∃ after changed', sweepFrom rewrite count pc insns changed = some (after, changed') ∧
      InPlace original after changed' := by
  induction count generalizing pc insns changed with
  | zero => exact ⟨insns, changed, rfl, sofar⟩
  | succ count ih =>
    have found : insns[pc]? = some insns[pc] := List.getElem?_eq_getElem (by omega)
    have wellFormed := sofar.rewritten.wellFormed
    obtain ⟨result, rewrote, isSound⟩ := sound insns pc insns[pc] wellFormed found
    simp only [sweepFrom, found, rewrote, bind_eq_bind, bind_some]
    cases result with
    | none => exact ih sofar (by omega)
    | some ins' =>
      obtain ⟨localRewrite, shortcut, lighter⟩ := isSound ins' rfl
      have now : InPlace original (insns.set pc ins') true := by
        refine ⟨sofar.rewritten.trans (localRewrite.set wellFormed found),
          fun first last flows => sofar.flows first last (flows_of_set shortcut flows),
          fun _ => ?_, nofun⟩
        have smaller := totalWeight_set found lighter
        cases changed with
        | false => rwa [← sofar.unchanged rfl]
        | true => exact smaller.trans (sofar.lighter rfl)
      exact ih now (by rw [length_set]; omega)

theorem sweep_sound (sound : SoundRewrite rewrite) (wellFormed : WellFormed insns) :
    ∃ after changed, sweep rewrite insns = some (after, changed) ∧ InPlace insns after changed :=
  sweepFrom_sound sound ⟨.refl wellFormed, fun _ _ flows => flows, nofun, fun _ => rfl⟩ (by omega)

/-! The four in-place passes. -/

section Threading

variable {offset limit : Nat} {op : Op} (limit) in
theorem threadedOffset_sound (wellFormed : WellFormed insns) (bound : pc + offset + 1 < insns.length) :
    ∃ result, threadedOffset insns pc offset limit = some result ∧
      ∀ longer, result = some longer → offset < longer ∧ longer ≤ limit ∧
        Flows insns (pc + offset + 1) (pc + longer + 1) ∧
        codeTree insns (pc + longer + 1) = codeTree insns (pc + offset + 1) := by
  have found : insns[pc + offset + 1]? = some insns[pc + offset + 1] := List.getElem?_eq_getElem bound
  generalize insns[pc + offset + 1] = target at found
  obtain ⟨op, decoded, _⟩ := wellFormed.valid found
  simp only [threadedOffset, found, bind_eq_bind, bind_some]
  split
  · rename_i threads
    refine ⟨_, rfl, fun longer same => ?_⟩
    obtain rfl := Option.some.inj same
    have direct : op.flavour = .direct := by
      simpa [isUnconditionalJump_eq decoded] using threads.1
    have place : pc + (offset + 1 + target.k.toNat) + 1 = pc + offset + 1 + target.k.toNat + 1 := by omega
    refine ⟨by omega, threads.2, .single ⟨target, found, ?_⟩, ?_⟩
    · rw [successors_eq decoded, direct, place]
      exact mem_singleton_self _
    · rw [codeTree_node found, node_eq decoded, direct, place]
  · exact ⟨none, rfl, nofun⟩

theorem weight_eq (decoded : ins.op? = some op) :
    weight ins = match op.flavour with
      | .conditional => 65537 + (255 - ins.jumpIfTrue.toNat) + (255 - ins.jumpIfFalse.toNat)
      | .direct => 1 + (65535 - ins.k.toNat)
      | _ => 0 := by
  rw [weight, isConditionalJump_eq decoded, isUnconditionalJump_eq decoded]
  cases op.flavour <;> simp

theorem rewrites_to (wellFormed : WellFormed insns) (found : insns[pc]? = some ins)
    (valid : ins'.Valid) (shortcut : ∀ next ∈ successors pc ins', Flows insns pc next)
    (sameNode : node (codeTree insns) pc ins' = node (codeTree insns) pc ins)
    (lighter : weight ins' < weight ins) :
    ∃ result, some (some ins') = some result ∧ ∀ other, result = some other →
      LocalRewrite insns pc ins other ∧ (∀ next ∈ successors pc other, Flows insns pc next) ∧
        weight other < weight ins := by
  refine ⟨_, rfl, fun other same => ?_⟩
  obtain rfl := Option.some.inj same
  have bound := (List.getElem?_eq_some_iff.mp found).1
  have stays := fun next member => wellFormed.flows_lt bound (shortcut next member)
  exact ⟨⟨valid, stays, sameNode⟩, shortcut, lighter⟩

theorem threadedOffset_getD {width : Nat} {offset : BitVec width} {result : Option Nat} (fits : limit < 2 ^ width)
    (threaded : ∀ longer, result = some longer → offset.toNat < longer ∧ longer ≤ limit ∧
      Flows insns (pc + offset.toNat + 1) (pc + longer + 1) ∧
      codeTree insns (pc + longer + 1) = codeTree insns (pc + offset.toNat + 1)) :
    ∃ after : BitVec width, after = BitVec.ofNat width (result.getD offset.toNat) ∧
      (offset.toNat ≤ after.toNat) ∧ (result.isSome → offset.toNat < after.toNat ∧
        after.toNat ≤ limit) ∧
      Flows insns (pc + offset.toNat + 1) (pc + after.toNat + 1) ∧
      codeTree insns (pc + after.toNat + 1) = codeTree insns (pc + offset.toNat + 1) := by
  refine ⟨_, rfl, ?_⟩
  cases result with
  | none => simp [Flows, Relation.ReflTransGen.refl]
  | some longer =>
    obtain ⟨increases, within, flows, same⟩ := threaded longer rfl
    have exact : (BitVec.ofNat width longer).toNat = longer := by
      rw [BitVec.toNat_ofNat, Nat.mod_eq_of_lt (by omega)]
    simp only [getD_some, exact]
    exact ⟨by omega, fun _ => ⟨increases, within⟩, flows, same⟩

theorem WellFormed.edges (wellFormed : WellFormed insns) (found : insns[pc]? = some ins) :
    ∀ next ∈ successors pc ins, next < insns.length ∧ Flows insns pc next :=
  fun _ member => ⟨wellFormed.edge_lt ⟨ins, found, member⟩, .single ⟨ins, found, member⟩⟩

theorem threadConditionalJump_sound : SoundRewrite threadConditionalJump := by
  intro insns pc ins wellFormed found
  obtain ⟨op, decoded, admits⟩ := wellFormed.valid found
  by_cases conditional : op.flavour = .conditional
  · have edges := wellFormed.edges found
    simp only [successors_eq decoded, conditional, mem_cons, not_mem_nil,
      or_false, forall_eq_or_imp, forall_eq] at edges
    obtain ⟨yes, readYes, threadedYes⟩ := threadedOffset_sound maxConditionalJumpOffset wellFormed edges.1.1
    obtain ⟨no, readNo, threadedNo⟩ := threadedOffset_sound maxConditionalJumpOffset wellFormed edges.2.1
    simp only [threadConditionalJump, isConditionalJump_eq decoded, conditional,
      readYes, readNo, bind_eq_bind, bind_some, decide_true, Bool.not_true,
      Bool.false_eq_true, ↓reduceIte]
    obtain ⟨jt, jtEq, jtLe, jtLonger, jtFlows, jtTree⟩ := threadedOffset_getD (by decide) threadedYes
    obtain ⟨jf, jfEq, jfLe, jfLonger, jfFlows, jfTree⟩ := threadedOffset_getD (by decide) threadedNo
    rw [← jtEq, ← jfEq]
    split
    · exact ⟨none, rfl, nofun⟩
    rename_i anyLonger
    have decoded' : ({ ins with jumpIfTrue := jt, jumpIfFalse := jf } : Instruction).op? = some op := decoded
    have shortcut : ∀ next ∈ successors pc { ins with jumpIfTrue := jt, jumpIfFalse := jf },
        Flows insns pc next := by
      simp only [successors_eq decoded', conditional, mem_cons, not_mem_nil, or_false,
        forall_eq_or_imp, forall_eq]
      exact ⟨edges.1.2.trans jtFlows, edges.2.2.trans jfFlows⟩
    refine rewrites_to wellFormed found ⟨op, decoded', admits⟩ shortcut ?_ ?_
    · simp only [node_eq decoded, node_eq decoded', conditional, jtTree, jfTree]
    · simp only [weight_eq decoded, weight_eq decoded', conditional]
      cases yes with
      | some longer => have := jtLonger rfl; simp only [maxConditionalJumpOffset] at this; omega
      | none =>
        cases no with
        | some longer =>
          have := jfLonger rfl; simp only [maxConditionalJumpOffset] at this; omega
        | none => simp at anyLonger
  · refine ⟨none, ?_, nofun⟩
    simp [threadConditionalJump, isConditionalJump_eq decoded, conditional]

theorem threadUnconditionalJump_sound : SoundRewrite threadUnconditionalJump := by
  intro insns pc ins wellFormed found
  obtain ⟨op, decoded, admits⟩ := wellFormed.valid found
  by_cases direct : op.flavour = .direct
  · have edge := wellFormed.edges found
    simp only [successors_eq decoded, direct, mem_singleton, forall_eq] at edge
    obtain ⟨result, read, threaded⟩ := threadedOffset_sound maxUnconditionalJumpOffset wellFormed edge.1
    simp only [threadUnconditionalJump, isUnconditionalJump_eq decoded, direct,
      read, bind_eq_bind, bind_some, decide_true, Bool.not_true,
      Bool.false_eq_true, ↓reduceIte]
    obtain ⟨k, kEq, _, kLonger, kFlows, kTree⟩ := threadedOffset_getD (by decide) threaded
    cases result with
    | none => exact ⟨none, rfl, nofun⟩
    | some longer =>
      rw [getD_some] at kEq
      dsimp only
      rw [← kEq]
      have decoded' : ({ ins with k } : Instruction).op? = some op := decoded
      have shortcut : ∀ next ∈ successors pc { ins with k }, Flows insns pc next := by
        simp only [successors_eq decoded', direct, mem_singleton, forall_eq]
        exact edge.2.trans kFlows
      have valid : ({ ins with k } : Instruction).Valid := by
        refine ⟨op, decoded', ?_⟩
        cases op <;> trivial
      refine rewrites_to wellFormed found valid shortcut ?_ ?_
      · simp only [node_eq decoded, node_eq decoded', direct, kTree]
      · have := kLonger rfl
        simp only [weight_eq decoded, weight_eq decoded', direct]
        simp only [maxUnconditionalJumpOffset] at this
        omega
  · refine ⟨none, ?_, nofun⟩
    simp [threadUnconditionalJump, isUnconditionalJump_eq decoded, direct]

theorem mergeSameTarget_sound : SoundRewrite mergeSameTarget := by
  intro insns pc ins wellFormed found
  obtain ⟨op, decoded, admits⟩ := wellFormed.valid found
  by_cases conditional : op.flavour = .conditional
  · simp only [mergeSameTarget, isConditionalJump_eq decoded, conditional,
      decide_true, Bool.not_true, Bool.false_eq_true, ↓reduceIte]
    split
    · exact ⟨none, rfl, nofun⟩
    rename_i differ
    have same : ins.jumpIfTrue = ins.jumpIfFalse := by simpa using differ
    have decoded' : (jump (Code.jmp ||| Code.ja) (ins.jumpIfTrue.setWidth 32) 0 0).op? =
        some .ja := Op.ofCode?_code .ja
    have direct : Op.flavour .ja = .direct := rfl
    have offset : (jump (Code.jmp ||| Code.ja) (ins.jumpIfTrue.setWidth 32) 0 0).k.toNat =
        ins.jumpIfTrue.toNat := by
      rw [jump, BitVec.toNat_setWidth, Nat.mod_eq_of_lt (by omega)]
    have shortcut : ∀ next ∈ successors pc
        (jump (Code.jmp ||| Code.ja) (ins.jumpIfTrue.setWidth 32) 0 0), Flows insns pc next := by
      intro next member
      refine .single ⟨ins, found, ?_⟩
      rw [successors_eq decoded', direct, offset] at member
      rw [successors_eq decoded, conditional]
      exact mem_cons.mpr (.inl (mem_singleton.mp member))
    refine rewrites_to wellFormed found ⟨.ja, decoded', trivial⟩ shortcut ?_ ?_
    · rw [node_eq decoded, node_eq decoded', conditional, direct, offset, ← same, Data.CodeTree.decideBy_same]
    · simp only [weight_eq decoded, weight_eq decoded', conditional, direct]
      omega
  · refine ⟨none, ?_, nofun⟩
    simp [mergeSameTarget, isConditionalJump_eq decoded, conditional]

theorem copyReturn_sound : SoundRewrite copyReturn := by
  intro insns pc ins wellFormed found
  obtain ⟨op, decoded, admits⟩ := wellFormed.valid found
  by_cases direct : op.flavour = .direct
  · have edge := wellFormed.edges found
    simp only [successors_eq decoded, direct, mem_singleton, forall_eq] at edge
    have read : insns[pc + ins.k.toNat + 1]? = some insns[pc + ins.k.toNat + 1] := List.getElem?_eq_getElem edge.1
    generalize insns[pc + ins.k.toNat + 1] = target at read
    obtain ⟨targetOp, decoded', admits'⟩ := wellFormed.valid read
    simp only [copyReturn, isUnconditionalJump_eq decoded, direct, read,
      bind_eq_bind, bind_some, decide_true, Bool.not_true,
      Bool.false_eq_true, ↓reduceIte]
    by_cases final : targetOp.flavour = .final
    · simp only [isReturn_eq decoded', final, decide_true, Bool.not_true,
        Bool.false_eq_true, ↓reduceIte]
      have shortcut : ∀ next ∈ successors pc target, Flows insns pc next := by
        simp [successors_eq decoded', final]
      refine rewrites_to wellFormed found ⟨targetOp, decoded', admits'⟩ shortcut ?_ ?_
      · simp only [node_eq decoded, node_eq decoded', direct, final, codeTree_node read]
      · simp [weight_eq decoded, weight_eq decoded', direct, final]
    · exact ⟨none, by simp [isReturn_eq decoded', final], nofun⟩
  · refine ⟨none, ?_, nofun⟩
    simp [copyReturn, isUnconditionalJump_eq decoded, direct]

end Threading

end BVisor.Bpf
