import Mathlib

/-! Paths in a graph with labelled edges, ranks that fall along the edges, and what happens to both
when edges are added. -/

namespace BVisor.Data

universe u v

variable {α : Type u} {ℓ : Type v}

inductive Path (edge : α → ℓ → α → Prop) : α → List ℓ → α → Prop where
  | here (node : α) : Path edge node [] node
  | along {node label next labels last} (first : edge node label next)
      (rest : Path edge next labels last) : Path edge node (label :: labels) last

section Basic

variable {edge wider : α → ℓ → α → Prop} {node middle last : α} {labels more : List ℓ}

def Ranked (edge : α → ℓ → α → Prop) : Prop :=
  ∃ rank : α → Nat, ∀ a label b, edge a label b → rank b < rank a

end Basic

/-! Edges that are added to a graph. -/

section Added

variable {old added edge : α → ℓ → α → Prop}

/-- No added edge ends where a path leads back to the start of one. -/
def Separated (old added : α → ℓ → α → Prop) : Prop :=
  ∀ a label b, added a label b → ∀ c other d, added c other d → ∀ labels, ¬ Path old b labels c

theorem Path.split (included : ∀ a label b, edge a label b → old a label b ∨ added a label b)
    (separated : Separated old added) {node last : α} {labels : List ℓ} (path : Path edge node labels last) :
    Path old node labels last ∨
      ∃ before label after source target, labels = before ++ label :: after ∧
        Path old node before source ∧ added source label target ∧ Path old target after last := by
  induction path with
  | here node => exact .inl (.here node)
  | @along node label next labels last first rest ih =>
    rcases included _ _ _ first with kept | new
    · rcases ih with whole | ⟨before, cut, after, source, target, rfl, up, crosses, down⟩
      · exact .inl (.along kept whole)
      · exact .inr ⟨label :: before, cut, after, source, target, rfl, .along kept up, crosses, down⟩
    · rcases ih with whole | ⟨before, cut, after, source, target, rfl, up, crosses, down⟩
      · exact .inr ⟨[], label, labels, node, next, rfl, .here node, new, whole⟩
      · exact (separated _ _ _ new _ _ _ crosses _ up).elim

open Classical in
/-- A graph stays ranked: what leads to an added edge is lifted above the ends of all of them. -/
theorem Ranked.extend (included : ∀ a label b, edge a label b → old a label b ∨ added a label b)
    (separated : Separated old added) (ranked : Ranked old) {ends : List α}
    (finite : ∀ a label b, added a label b → b ∈ ends) : Ranked edge := by
  obtain ⟨rank, falls⟩ := ranked
  obtain ⟨bound, bounded⟩ : ∃ bound, ∀ b ∈ ends, rank b < bound := by
    clear finite
    induction ends with
    | nil => exact ⟨0, fun _ member => nomatch member⟩
    | cons head tail ih =>
      obtain ⟨bound, bounded⟩ := ih
      refine ⟨rank head + 1 + bound, fun b member => ?_⟩
      rcases List.mem_cons.mp member with rfl | later
      · omega
      · have := bounded b later
        omega
  let Leads (node : α) : Prop := ∃ labels source label target,
    Path old node labels source ∧ added source label target
  refine ⟨fun node => if Leads node then rank node + bound else rank node, ?_⟩
  intro a label b found
  rcases included a label b found with kept | new
  · have below := falls a label b kept
    by_cases leads : Leads b
    · have leadsToo : Leads a := by
        obtain ⟨labels, source, other, target, path, crosses⟩ := leads
        exact ⟨label :: labels, source, other, target, .along kept path, crosses⟩
      simp only [if_pos leads, if_pos leadsToo]
      omega
    · simp only [if_neg leads]
      split <;> omega
  · have leads : Leads a := ⟨[], a, label, b, .here a, new⟩
    have apart : ¬ Leads b := by
      intro ⟨labels, source, other, target, path, crosses⟩
      exact separated a label b new source other target crosses labels path
    have below := bounded b (finite a label b new)
    simp only [if_pos leads, if_neg apart]
    omega

end Added

end BVisor.Data
