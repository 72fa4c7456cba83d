import Rollup.Lib.Exec

/-!
# Related programs

Two programs are *related* if both stop, whatever the errors, or both return and their
results are related (`Related`). A program that is started from two related states is
related to itself if each of its steps is, so that relating two programs follows their
text: `Related.bind` for the steps that may return different results, `Related.bind_self`
for those that do the same on both sides.

* `Related.exists_ok`: if one of the programs returns, so does the other;
* `Related.run`: runs of systems with related steps, on related inputs.
-/

namespace Exec

universe u

variable {ε : Type*} {α β γ δ : Type u}

/-- Both programs stop, or both return related results. -/
inductive Related (R : α → β → Prop) : Except ε α → Except ε β → Prop
  | ok {a : α} {b : β} : R a b → Related R (.ok a) (.ok b)
  | error {e e' : ε} : Related R (.error e) (.error e')

namespace Related

variable {R R' : α → β → Prop} {S : γ → δ → Prop} {x : Except ε α} {y : Except ε β}

theorem refl {R : α → α → Prop} (h : ∀ a, R a a) (x : Except ε α) : Related R x x := by
  cases x with
  | ok a => exact .ok (h a)
  | error e => exact .error

theorem mono (h : Related R x y) (hR : ∀ a b, R a b → R' a b) : Related R' x y := by
  cases h with
  | ok hab => exact .ok (hR _ _ hab)
  | error => exact .error

theorem trans {z : Except ε γ} {S : β → γ → Prop} {T : α → γ → Prop} (h : Related R x y)
    (h' : Related S y z) (hT : ∀ a b c, R a b → S b c → T a c) : Related T x z := by
  cases h with
  | ok hab =>
    cases h' with
    | ok hbc => exact .ok (hT _ _ _ hab hbc)
  | error =>
    cases h' with
    | error => exact .error

theorem symm (h : Related R x y) : Related (fun b a => R a b) y x := by
  cases h with
  | ok hab => exact .ok hab
  | error => exact .error

/-- If one of the programs returns, so does the other. -/
theorem exists_ok (h : Related R x y) {a : α} (ha : x = .ok a) : ∃ b, y = .ok b ∧ R a b := by
  subst ha
  cases h with
  | ok hab => exact ⟨_, rfl, hab⟩

/-- If one of the programs returns, so does the other, with a related result. -/
theorem of_ok (h : ∀ a, x = .ok a → ∃ b, y = .ok b ∧ R a b) (h' : ∀ b, y = .ok b → ∃ a, x = .ok a) :
    Related R x y := by
  cases x with
  | ok a =>
    obtain ⟨b, rfl, hab⟩ := h a rfl
    exact .ok hab
  | error e =>
    cases y with
    | ok b =>
      obtain ⟨a, ha⟩ := h' b rfl
      cases ha
    | error e' => exact .error

/-- The results are those that the programs return. -/
theorem eqs (h : Related R x y) : Related (fun a b => R a b ∧ x = .ok a ∧ y = .ok b) x y := by
  cases h with
  | ok hab => exact .ok ⟨hab, rfl, rfl⟩
  | error => exact .error

theorem pure_pure {a : α} {b : β} (h : R a b) :
    Related R (pure a : Except ε α) (pure b : Except ε β) := .ok h

/-! ## Sequences -/

theorem bind {f : α → Except ε γ} {g : β → Except ε δ} (h : Related R x y)
    (hfg : ∀ a b, R a b → Related S (f a) (g b)) : Related S (x >>= f) (y >>= g) := by
  cases h with
  | ok hab => exact hfg _ _ hab
  | error => exact .error

/-- The first program being the same on both sides. -/
theorem bind_self {x : Except ε α} {f : α → Except ε γ} {g : α → Except ε δ}
    (hfg : ∀ a, x = .ok a → Related S (f a) (g a)) : Related S (x >>= f) (x >>= g) := by
  cases x with
  | ok a => exact hfg a rfl
  | error e => exact .error

theorem map {f : α → γ} {g : β → δ} (h : Related R x y) (hfg : ∀ a b, R a b → S (f a) (g b)) :
    Related S (f <$> x) (g <$> y) := by
  cases h with
  | ok hab => exact .ok (hfg _ _ hab)
  | error => exact .error

theorem unwrap {e : ε} {o : Option α} {o' : Option β} (h : Option.Rel R o o') :
    Related R (unwrap e o) (unwrap e o') := by
  cases h with
  | some hab => exact .ok hab
  | none => exact .error

/-- The same condition on both sides. -/
theorem assert_bind {α β : Type} {R : α → β → Prop} {e : ε} {p q : Prop} [Decidable p] [Decidable q]
    (hpq : p ↔ q) {f : Unit → Except ε α} {g : Unit → Except ε β}
    (hfg : p → Related R (f ()) (g ())) :
    Related R (assert e p >>= f) (assert e q >>= g) := by
  by_cases hp : p
  · rw [assert_of hp, assert_of (hpq.1 hp)]
    exact hfg hp
  · rw [assert, assert, if_neg hp, if_neg (mt hpq.2 hp)]
    exact .error

theorem ite {p q : Prop} [Decidable p] [Decidable q] (hpq : p ↔ q) {x' : Except ε α}
    {y' : Except ε β} (h : p → Related R x y) (h' : ¬p → Related R x' y') :
    Related R (if p then x else x') (if q then y else y') := by
  by_cases hp : p
  · rw [if_pos hp, if_pos (hpq.1 hp)]
    exact h hp
  · rw [if_neg hp, if_neg (mt hpq.2 hp)]
    exact h' hp

/-- Programs that do not depend on each other can be run in any order. -/
theorem bind_comm (x : Except ε α) (y : Except ε β) {f : α → β → γ} {g : α → β → δ}
    (h : ∀ a b, S (f a b) (g a b)) :
    Related S (x >>= fun a => y >>= fun b => pure (f a b))
      (y >>= fun b => x >>= fun a => pure (g a b)) := by
  cases x with
  | ok a =>
    cases y with
    | ok b => exact .ok (h a b)
    | error e => exact .error
  | error e =>
    cases y with
    | ok b | error e' => exact .error

/-! ## Runs -/

/-- Related inputs, given one after the other to systems with related steps. -/
theorem run {σ τ : Type u} {ι κ : Type*} {step : σ → ι → Except ε σ} {step' : τ → κ → Except ε τ}
    {R : σ → τ → Prop} {I : ι → κ → Prop}
    (hstep : ∀ s t i j, R s t → I i j → Related R (step s i) (step' t j)) {s : σ} {t : τ}
    (h : R s t) {is : List ι} {js : List κ} (hinputs : List.Forall₂ I is js) :
    Related R (run step s is) (run step' t js) := by
  induction hinputs generalizing s t with
  | nil => exact .ok h
  | cons hij _ ih => exact (hstep _ _ _ _ h hij).bind fun _ _ h => ih h

end Related

end Exec
