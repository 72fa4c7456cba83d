import Mathlib.Data.Set.BooleanAlgebra
import Mathlib.Order.CompletePartialOrder

/-!
# Local relations

A relation between families is *local* to a set of indices if it changes no value elsewhere,
and does not depend on the values elsewhere: it also relates the families that have the
same values on the set, and the same values as each other elsewhere.

* `Local.comm`: relations that are local to disjoint sets commute.
-/

namespace Families

universe u v

variable {ι : Type u} {α : Type v} {A B : Set ι} {R S : (ι → α) → (ι → α) → Prop}

/-- The relation is about the values at the indices of `A` only. -/
structure Local (A : Set ι) (R : (ι → α) → (ι → α) → Prop) : Prop where
  frame : ∀ {f f'}, R f f' → ∀ i ∉ A, f' i = f i
  transport : ∀ {f f' g g'}, R f f' → (∀ i ∈ A, g i = f i) → (∀ i ∈ A, g' i = f' i) →
    (∀ i ∉ A, g' i = g i) → R g g'

namespace Local

/-- What is done on disjoint sets can be done in either order. -/
theorem comm (hR : Local A R) (hS : Local B S) (hAB : Disjoint A B) {f f' f'' : ι → α}
    (h : R f f') (h' : S f' f'') : ∃ g, S f g ∧ R g f'' := by
  classical
  -- what the second relation does, without the first one
  refine ⟨fun i => if i ∈ B then f'' i else f i, ?_, ?_⟩
  · refine hS.transport h' (fun i hi => ?_) (fun i hi => if_pos hi) fun i hi => if_neg hi
    exact (hR.frame h i (Set.disjoint_right.1 hAB hi)).symm
  · refine hR.transport h (fun i hi => ?_) (fun i hi => ?_) fun i hi => ?_
    · exact if_neg (Set.disjoint_left.1 hAB hi)
    · exact hS.frame h' i (Set.disjoint_left.1 hAB hi)
    · split
      · rfl
      · next hB => rw [hS.frame h' i hB, hR.frame h i hi]

end Local

end Families
