import Mathlib.Data.List.Basic
import Mathlib.Data.List.Forall2

/-!
# Fallible programs and their runs

A program that may stop with an error is a value of `Except ε α`; `unwrap` and
`assert` are the two ways the programs here stop. The `simp` set of this file
turns `p = .ok b`, for a `do` block `p`, into the chain of its intermediate
results.

A system takes a step for each input it is given, or stops (`step`). A *run*
(`run`) feeds it a list of inputs. A state is *reachable* under a condition on
the steps (`Reachable`) if a run whose steps all meet it leads there.

* `Reachable.invariant`: an invariant of the steps holds in every reachable state;
* `forall_take_iff`: if a step preserves an invariant exactly when it meets a
  condition, then the invariant holds all along a run exactly when all its steps
  meet the condition;
* `along_iff`: the steps of a run all meet a condition (`Along`) if every step from a
  state of the run does.
-/

namespace Exec

universe u

variable {ε : Type*} {α β : Type u}

/-! ## Programs -/

/-- The value of an option, or the error `e` if there is none. -/
def unwrap (e : ε) : Option α → Except ε α
  | some a => .ok a
  | none => .error e

/-- Stopping with the error `e` unless `p` holds. -/
def assert (e : ε) (p : Prop) [Decidable p] : Except ε Unit :=
  if p then .ok () else .error e

@[simp] theorem unwrap_some {e : ε} {a : α} : unwrap e (some a) = .ok a := rfl

/-- An `unwrap` that succeeds had something to unwrap. -/
@[simp] theorem unwrap_eq_ok_iff {e : ε} {o : Option α} {a : α} : unwrap e o = .ok a ↔ o = some a := by
  cases o <;> simp [unwrap]

/-- An assertion that succeeds is true. -/
@[simp] theorem assert_eq_ok_iff {e : ε} {p : Prop} [Decidable p] {u : Unit} :
    assert e p = .ok u ↔ p := by
  rw [assert]
  split <;> simp_all

theorem assert_of {e : ε} {p : Prop} [Decidable p] (h : p) : assert e p = .ok () := if_pos h

/-- A sequence succeeds if both of its parts do. -/
@[simp] theorem bind_eq_ok_iff {x : Except ε α} {f : α → Except ε β} {b : β} :
    (x >>= f) = .ok b ↔ ∃ a, x = .ok a ∧ f a = .ok b := by
  cases x <;> simp [bind, Except.bind]

theorem assert_bind_eq_ok_iff {γ : Type} {e : ε} {p : Prop} [Decidable p] {f : Unit → Except ε γ}
    {c : γ} : (assert e p >>= f) = .ok c ↔ p ∧ f () = .ok c := by
  by_cases h : p
  · rw [assert, if_pos h]
    exact ⟨fun hc => ⟨h, hc⟩, And.right⟩
  · rw [assert, if_neg h]
    exact ⟨fun hc => (by cases hc), fun hc => absurd hc.1 h⟩

@[simp] theorem pure_eq_ok_iff {a b : α} : (pure a : Except ε α) = .ok b ↔ a = b := by
  simp [pure, Except.pure]

@[simp] theorem map_eq_ok_iff {x : Except ε α} {f : α → β} {b : β} :
    f <$> x = .ok b ↔ ∃ a, x = .ok a ∧ f a = b := by
  cases x <;> simp [Functor.map, Except.map]

/-- A function of the result makes no error of its own. -/
theorem map_eq_error_iff {x : Except ε α} {f : α → β} {e : ε} :
    x.map f = .error e ↔ x = .error e := by
  cases x <;> simp [Except.map]

/-- A program that does not return stops. -/
theorem exists_error_iff {x : Except ε α} : (∃ e, x = .error e) ↔ ¬∃ a, x = .ok a := by
  cases x <;> simp

@[simp] theorem ok_bind {a : α} {f : α → Except ε β} : ((.ok a : Except ε α) >>= f) = f a := rfl

@[simp] theorem error_bind {e : ε} {f : α → Except ε β} :
    ((.error e : Except ε α) >>= f) = .error e := rfl

/-! Programs that succeed with a result satisfying `P`, step by step. -/

/-- A sequence succeeds once its first part has, and its second part does with what that
    returned. -/
theorem exists_bind {P : β → Prop} {x : Except ε α} {f : α → Except ε β} {a : α}
    (hx : x = .ok a) (hf : ∃ b, f a = .ok b ∧ P b) : ∃ b, (x >>= f) = .ok b ∧ P b := by
  rwa [hx, ok_bind]

theorem exists_assert_bind {γ : Type} {P : γ → Prop} {e : ε} {p : Prop} [Decidable p]
    {f : Unit → Except ε γ} (hp : p) (hf : ∃ c, f () = .ok c ∧ P c) :
    ∃ c, (assert e p >>= f) = .ok c ∧ P c := by
  rwa [assert_of hp, ok_bind]

theorem exists_pure {P : α → Prop} {a : α} (ha : P a) :
    ∃ b, (pure a : Except ε α) = .ok b ∧ P b := ⟨a, rfl, ha⟩

/-- A program that succeeds on every element of a list succeeds on the list. -/
theorem exists_mapM_eq_ok {f : α → Except ε β} {l : List α} (h : ∀ a ∈ l, ∃ b, f a = .ok b) :
    ∃ bs, l.mapM f = .ok bs ∧ ∀ b, b ∈ bs ↔ ∃ a ∈ l, f a = .ok b := by
  induction l with
  | nil => exact ⟨[], rfl, by simp⟩
  | cons a l ih =>
    obtain ⟨b, hb⟩ := h a List.mem_cons_self
    obtain ⟨bs, hbs, hmem⟩ := ih fun a' ha' => h a' (List.mem_cons_of_mem a ha')
    refine ⟨b :: bs, by simp [List.mapM_cons, hb, hbs], fun b' => ?_⟩
    simp [hmem, hb, eq_comm]

/-- A program on every element of a list succeeds if it does on each of them. -/
theorem mapM_eq_ok_iff {f : α → Except ε β} {l : List α} {bs : List β} :
    l.mapM f = .ok bs ↔ List.Forall₂ (fun a b => f a = .ok b) l bs := by
  induction l generalizing bs with
  | nil => rw [List.mapM_nil, pure_eq_ok_iff, List.forall₂_nil_left_iff, eq_comm]
  | cons a l ih =>
    simp only [List.mapM_cons, bind_eq_ok_iff, pure_eq_ok_iff, List.forall₂_cons_left_iff, ih]
    constructor
    · rintro ⟨b, hb, bs', hbs, rfl⟩
      exact ⟨b, bs', hb, hbs, rfl⟩
    · rintro ⟨b, bs', hb, hbs, rfl⟩
      exact ⟨b, hb, bs', hbs, rfl⟩

/-- Once the first programs have succeeded on a list, the second ones run on the results. -/
theorem mapM_bind_of_eq_ok {γ : Type u} {f : α → Except ε β} {g : β → Except ε γ} {l : List α}
    {bs : List β} (h : l.mapM f = .ok bs) : (l.mapM fun a => f a >>= g) = bs.mapM g := by
  induction mapM_eq_ok_iff.1 h with
  | nil => rfl
  | cons hab hrest ih => rw [List.mapM_cons, List.mapM_cons, hab, ok_bind, ih (mapM_eq_ok_iff.2 hrest)]

/-- A loop that is followed step by step by another one. -/
theorem exists_foldlM_eq_ok {ε' σ τ : Type*} {ι : Type*} {R : σ → τ → Prop}
    {f : σ → ι → Except ε σ} {g : τ → ι → Except ε' τ}
    (hfg : ∀ s t i t', R s t → g t i = .ok t' → ∃ s', f s i = .ok s' ∧ R s' t') {l : List ι}
    {s : σ} {t t' : τ} (h : R s t) (hg : l.foldlM g t = .ok t') :
    ∃ s', l.foldlM f s = .ok s' ∧ R s' t' := by
  induction l generalizing s t with
  | nil => exact ⟨s, rfl, Except.ok.inj hg ▸ h⟩
  | cons i l ih =>
    rw [List.foldlM_cons, bind_eq_ok_iff] at hg
    obtain ⟨t₁, ht₁, hg⟩ := hg
    obtain ⟨s₁, hs₁, h₁⟩ := hfg s t i t₁ h ht₁
    obtain ⟨s', hs', h'⟩ := ih h₁ hg
    exact ⟨s', bind_eq_ok_iff.2 ⟨s₁, hs₁, hs'⟩, h'⟩

/-- A result that is kept was a success. -/
theorem toOption_eq_some_iff {x : Except ε α} {a : α} : x.toOption = some a ↔ x = .ok a := by
  cases x <;> simp [Except.toOption]

/-- A program that is evaluated to a result returns one. -/
theorem exists_eq_ok (x : Except ε α) (h : x.toOption.isSome) : ∃ a, x = .ok a := by
  cases x with
  | ok a => exact ⟨a, rfl⟩
  | error e => cases h

instance decidableForallOk {x : Except ε α} {P : α → Prop} [DecidablePred P] :
    Decidable (∀ a, x = .ok a → P a) :=
  match x with
  | .ok a => decidable_of_iff (P a) ⟨fun h _ ha => Except.ok.inj ha ▸ h, fun h => h a rfl⟩
  | .error _ => .isTrue fun _ ha => by cases ha

/-! ## Runs -/

section Run

variable {σ : Type u} {ι : Type*} (step : σ → ι → Except ε σ)

/-- The run of a system from `s` on a list of inputs. -/
def run : σ → List ι → Except ε σ
  | s, [] => .ok s
  | s, i :: is => step s i >>= fun t => run t is

/-- The states reached from `s₀` by steps that all meet the condition `allowed`. -/
inductive Reachable (allowed : σ → ι → Prop) (s₀ : σ) : σ → Prop
  | init : Reachable allowed s₀ s₀
  | step {s s' : σ} {i : ι} :
      Reachable allowed s₀ s → allowed s i → step s i = .ok s' → Reachable allowed s₀ s'

/-- The step of a system that stops with the error `e` when it is not allowed. -/
def guarded (e : ε) (allowed : σ → ι → Prop) [∀ s i, Decidable (allowed s i)] (s : σ) (i : ι) :
    Except ε σ :=
  if allowed s i then step s i else .error e

variable {step} {allowed allowed' : σ → ι → Prop} {s₀ : σ}

@[simp] theorem run_nil {s t : σ} : run step s [] = .ok t ↔ s = t := by simp [run]

/-- A run takes its first step, and goes on from where it leads. -/
@[simp] theorem run_cons {s t : σ} {i : ι} {is : List ι} :
    run step s (i :: is) = .ok t ↔ ∃ s', step s i = .ok s' ∧ run step s' is = .ok t := by
  simp [run]

/-- A run in two parts. -/
theorem run_append {s t : σ} {is js : List ι} :
    run step s (is ++ js) = .ok t ↔ ∃ s', run step s is = .ok s' ∧ run step s' js = .ok t := by
  induction is generalizing s with
  | nil => simp
  | cons i is ih =>
    rw [List.cons_append, run_cons]
    simp only [ih, run_cons]
    constructor
    · rintro ⟨s₁, hst, s', hrun, hrun'⟩
      exact ⟨s', ⟨s₁, hst, hrun⟩, hrun'⟩
    · rintro ⟨s', ⟨s₁, hst, hrun⟩, hrun'⟩
      exact ⟨s₁, hst, s', hrun, hrun'⟩

/-- Only the steps allowed more freely matter. -/
theorem Reachable.mono (h : ∀ s i, allowed s i → allowed' s i) {s : σ}
    (hs : Reachable step allowed s₀ s) : Reachable step allowed' s₀ s := by
  induction hs with
  | init => exact .init
  | step _ ha hst ih => exact ih.step (h _ _ ha) hst

/-- A run from a reachable state on inputs that are always allowed. -/
theorem Reachable.run {s t : σ} {is : List ι} (hs : Reachable step allowed s₀ s)
    (h : ∀ i ∈ is, ∀ s, allowed s i) (hrun : Exec.run step s is = .ok t) :
    Reachable step allowed s₀ t := by
  induction is generalizing s with
  | nil => exact run_nil.1 hrun ▸ hs
  | cons i is ih =>
    obtain ⟨s', hst, hrun⟩ := run_cons.1 hrun
    exact ih (hs.step (h i List.mem_cons_self s) hst)
      (fun j hj => h j (List.mem_cons_of_mem i hj)) hrun

/-- A guarded run is a run, whose steps are all allowed. -/
theorem Reachable.of_guarded {e : ε} [∀ s i, Decidable (allowed s i)] {s t : σ} {is : List ι}
    (hs : Reachable step allowed s₀ s) (hrun : Exec.run (guarded step e allowed) s is = .ok t) :
    Reachable step allowed s₀ t ∧ Exec.run step s is = .ok t := by
  induction is generalizing s with
  | nil => exact run_nil.1 hrun ▸ ⟨hs, run_nil.2 rfl⟩
  | cons i is ih =>
    obtain ⟨s', hst, hrun⟩ := run_cons.1 hrun
    rw [guarded] at hst
    split at hst
    · next ha =>
      obtain ⟨ht, hrun⟩ := ih (hs.step ha hst) hrun
      exact ⟨ht, run_cons.2 ⟨s', hst, hrun⟩⟩
    · cases hst

/-- An invariant of the allowed steps holds in every state they reach. -/
@[elab_as_elim]
theorem Reachable.invariant {Inv : σ → Prop} (h₀ : Inv s₀)
    (h : ∀ s i s', Reachable step allowed s₀ s → Inv s → allowed s i → step s i = .ok s' → Inv s')
    {s : σ} (hs : Reachable step allowed s₀ s) : Inv s := by
  induction hs with
  | init => exact h₀
  | step hs ha hst ih => exact h _ _ _ hs ih ha hst

/-- If, on the states satisfying `Base`, a step preserves `Inv` exactly when it
    meets `cond`, then `Inv` holds in all the states of a run exactly when all
    its steps meet `cond`. -/
theorem forall_take_iff {Base Inv : σ → Prop} {cond : σ → ι → Prop}
    (hb : ∀ s i s', Base s → step s i = .ok s' → Base s')
    (h : ∀ s i s', Base s → Inv s → step s i = .ok s' → (Inv s' ↔ cond s i))
    {s t : σ} {is : List ι} (hs : Base s) (hi : Inv s) (hrun : run step s is = .ok t) :
    (∀ k u, run step s (is.take k) = .ok u → Inv u) ↔
      ∀ k u i, run step s (is.take k) = .ok u → is[k]? = some i → cond u i := by
  induction is generalizing s with
  | nil => simp [hi]
  | cons i is ih =>
    -- The first step decides the invariant in the state it leads to, and the rest of the run goes
    -- on from there.
    obtain ⟨s', hst, hrun⟩ := run_cons.1 hrun
    have hcond := h s i s' hs hi hst
    constructor
    · intro hall k u j hu hj
      have hi' : Inv s' := hall 1 s' (by simp [hst])
      cases k with
      | zero =>
        simp only [List.take_zero, run_nil, List.getElem?_cons_zero, Option.some.injEq] at hu hj
        rw [← hu, ← hj]
        exact hcond.1 hi'
      | succ k =>
        refine (ih (hb s i s' hs hst) hi' hrun).1 (fun l v hv => hall (l + 1) v ?_) k u j ?_ hj
        · simpa [hst] using hv
        · simpa [hst] using hu
    · intro hall k u hu
      have hi' : Inv s' := hcond.2 (hall 0 s i (by simp) rfl)
      cases k with
      | zero => exact run_nil.1 hu ▸ hi
      | succ k =>
        refine (ih (hb s i s' hs hst) hi' hrun).2 (fun l v j hv hj => hall (l + 1) v j ?_ hj) k u ?_
        · simpa [hst] using hv
        · simpa [hst] using hu

/-- Every step that is tried along the run meets the condition. -/
def Along (step : σ → ι → Except ε σ) (cond : σ → ι → Prop) : σ → List ι → Prop
  | _, [] => True
  | s, i :: is => cond s i ∧ ∀ s', step s i = .ok s' → Along step cond s' is

/-- A weaker condition holds along the same run. -/
theorem Along.mono {cond cond' : σ → ι → Prop} {s : σ} {is : List ι}
    (h : ∀ s, ∀ i ∈ is, cond s i → cond' s i) (his : Along step cond s is) :
    Along step cond' s is := by
  induction is generalizing s with
  | nil => exact trivial
  | cons i is ih =>
    exact ⟨h s i List.mem_cons_self his.1,
      fun s' hst => ih (fun s j hj => h s j (List.mem_cons_of_mem i hj)) (his.2 s' hst)⟩

/-- Along a run means in every state that a part of it leads to. -/
theorem along_iff {cond : σ → ι → Prop} {s : σ} {is : List ι} : Along step cond s is ↔
    ∀ k u i, run step s (is.take k) = .ok u → is[k]? = some i → cond u i := by
  induction is generalizing s with
  | nil => simp [Along]
  | cons i is ih =>
    rw [Along]
    simp only [ih]
    constructor
    · rintro ⟨hi, his⟩ k u j hu hj
      cases k with
      | zero =>
        obtain rfl := run_nil.1 hu
        obtain rfl := Option.some.inj hj
        exact hi
      | succ k =>
        obtain ⟨s', hst, hu⟩ := run_cons.1 hu
        exact his s' hst k u j hu hj
    · intro h
      exact ⟨h 0 s i (run_nil.2 rfl) rfl,
        fun s' hst k u j hu hj => h (k + 1) u j (run_cons.2 ⟨s', hst, hu⟩) hj⟩

/-- A run from a reachable state whose steps are allowed. -/
theorem Reachable.run_along {s t : σ} {is : List ι} (hs : Reachable step allowed s₀ s)
    (h : Along step allowed s is) (hrun : Exec.run step s is = .ok t) :
    Reachable step allowed s₀ t := by
  induction is generalizing s with
  | nil => exact run_nil.1 hrun ▸ hs
  | cons i is ih =>
    obtain ⟨s', hst, hrun⟩ := run_cons.1 hrun
    exact ih (hs.step h.1 hst) (h.2 s' hst) hrun

/-- The steps of a guarded run meet its condition. -/
theorem along_of_guarded {e : ε} [∀ s i, Decidable (allowed s i)] {s t : σ} {is : List ι}
    (hrun : Exec.run (guarded step e allowed) s is = .ok t) : Along step allowed s is := by
  induction is generalizing s with
  | nil => exact trivial
  | cons i is ih =>
    obtain ⟨s', hst, hrun⟩ := run_cons.1 hrun
    rw [guarded] at hst
    split at hst
    · next ha =>
      refine ⟨ha, fun t' ht' => ?_⟩
      obtain rfl := Except.ok.inj (hst.symm.trans ht')
      exact ih hrun
    · cases hst

end Run

end Exec
