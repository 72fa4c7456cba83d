import Rollup.Lib.Exec

/-!
# Postconditions

A program *ensures* a property if what it returns has it; whether it returns does not matter
(`Ensures`). What a program ensures follows its text: `Ensures.bind` for the steps of which
something is known, `Ensures.bind_any` for those of which only the result is.

* `Ensures.foldlM`: an invariant of a loop;
* `Reachable.ensures`: an invariant of a system.
-/

namespace Exec

universe u

variable {ε ι : Type*} {α β σ : Type u}

/-- What the program returns, if it does, satisfies `P`. -/
def Ensures (P : α → Prop) (x : Except ε α) : Prop := ∀ a, x = .ok a → P a

namespace Ensures

variable {P P' : α → Prop} {Q : β → Prop} {x x' : Except ε α}

theorem mono (h : Ensures P x) (hP : ∀ a, P a → P' a) : Ensures P' x := fun a ha => hP a (h a ha)

theorem pure {a : α} (h : P a) : Ensures P (Pure.pure a : Except ε α) :=
  fun _ ha => Except.ok.inj ha ▸ h

theorem error {e : ε} : Ensures P (.error e : Except ε α) := fun _ ha => by cases ha

/-! ## Sequences -/

theorem bind {f : α → Except ε β} (h : Ensures P x) (hf : ∀ a, P a → Ensures Q (f a)) :
    Ensures Q (x >>= f) := by
  intro b hb
  obtain ⟨a, ha, hb⟩ := bind_eq_ok_iff.1 hb
  exact hf a (h a ha) b hb

/-- What is returned by the first step is all that is known of it. -/
theorem bind_any {f : α → Except ε β} (hf : ∀ a, x = .ok a → Ensures Q (f a)) :
    Ensures Q (x >>= f) :=
  bind (fun _ ha => ha) hf

/-- The property that is checked holds from then on. -/
theorem assert_bind {α : Type} {P : α → Prop} {e : ε} {p : Prop} [Decidable p]
    {f : Unit → Except ε α} (hf : p → Ensures P (f ())) : Ensures P (assert e p >>= f) := by
  intro a ha
  obtain ⟨hp, ha⟩ := assert_bind_eq_ok_iff.1 ha
  exact hf hp a ha

theorem ite {p : Prop} [Decidable p] (h : p → Ensures P x) (h' : ¬p → Ensures P x') :
    Ensures P (if p then x else x') := by
  split
  · next hp => exact h hp
  · next hp => exact h' hp

/-! ## Loops -/

theorem foldlM {I : σ → Prop} {f : σ → ι → Except ε σ} {l : List ι}
    (hf : ∀ s, ∀ i ∈ l, I s → Ensures I (f s i)) {s : σ} (hs : I s) : Ensures I (l.foldlM f s) := by
  induction l generalizing s with
  | nil => exact .pure hs
  | cons i l ih =>
    rw [List.foldlM_cons]
    exact (hf s i List.mem_cons_self hs).bind fun t ht =>
      ih (fun s j hj => hf s j (List.mem_cons_of_mem i hj)) ht

end Ensures

/-- What the steps ensure, from a state with the property, holds of all the states reached. -/
theorem Reachable.ensures {step : σ → ι → Except ε σ} {allowed : σ → ι → Prop} {I : σ → Prop}
    {s₀ s : σ} (hs : Reachable step allowed s₀ s) (h₀ : I s₀)
    (hstep : ∀ s i, I s → allowed s i → Ensures I (step s i)) : I s :=
  hs.invariant h₀ fun s i t _ h hi hst => hstep s i h hi t hst

end Exec
