import Mathlib.Algebra.BigOperators.Group.Finset.Piecewise
import Mathlib.Algebra.Order.BigOperators.Group.Finset
import Mathlib.Data.ZMod.Basic

/-!
# Bookkeeping

The books of accounts that hold amounts of several goods: an *entry* debits or credits an
account (`enter`), and a debit must be covered by the balance. What a list of entries does is
decided by the sums of its debits and credits: a balance is the former one plus the credits
less the debits (`enterAll_apply`), and so is the total of a good (`enterAll_total`).

The books may be kept in residues. A debit that is covered is then exact (`enter_debit_val`),
and so is a credit as long as the total stays below the modulus (`enter_credit_val`): only what
comes from outside has to be bounded, whatever is moved between the accounts.
-/

namespace Bookkeeping

/-- What the accounts hold of the goods. -/
abbrev Balances (α τ M : Type*) := α → τ → M

/-- An entry in the books. -/
inductive Entry (α τ : Type*) where
  | debit (account : α) (good : τ) (amount : ℕ)
  | credit (account : α) (good : τ) (amount : ℕ)

variable {α τ : Type*} [DecidableEq α] [DecidableEq τ]

namespace Entry

/-- The account that an entry concerns. -/
def account : Entry α τ → α
  | debit a _ _ | credit a _ _ => a

/-- What the entry takes from the account `a` of the good `t`. -/
def debits (a : α) (t : τ) : Entry α τ → ℕ
  | debit b u n => if b = a ∧ u = t then n else 0
  | credit _ _ _ => 0

/-- What the entry gives to the account `a` of the good `t`. -/
def credits (a : α) (t : τ) : Entry α τ → ℕ
  | debit _ _ _ => 0
  | credit b u n => if b = a ∧ u = t then n else 0

/-- What the entry takes of the good `t`, from whatever account. -/
def taken (t : τ) : Entry α τ → ℕ
  | debit _ u n => if u = t then n else 0
  | credit _ _ _ => 0

/-- What the entry gives of the good `t`, to whatever account. -/
def given (t : τ) : Entry α τ → ℕ
  | debit _ _ _ => 0
  | credit _ u n => if u = t then n else 0

end Entry

/-! ## Balances -/

section Put

variable {M N : Type*}

/-- The balances, with one of them replaced. -/
def put (b : Balances α τ M) (a : α) (t : τ) (v : M) : Balances α τ M :=
  fun c u => if c = a ∧ u = t then v else b c u

theorem put_apply (b : Balances α τ M) (a c : α) (t u : τ) (v : M) :
    put b a t v c u = if c = a ∧ u = t then v else b c u := rfl

theorem put_of_ne (b : Balances α τ M) {a c : α} {t u : τ} (v : M) (h : ¬(c = a ∧ u = t)) :
    put b a t v c u = b c u :=
  if_neg h

theorem put_eq_self (b : Balances α τ M) (a : α) (t : τ) : put b a t (b a t) = b := by
  funext c u
  rw [put_apply]
  split
  · next h => rw [h.1, h.2]
  · rfl

/-- The balances, read through `f`. -/
def read (f : M → N) (b : Balances α τ M) : Balances α τ N := fun a t => f (b a t)

theorem read_put (f : M → N) (b : Balances α τ M) (a : α) (t : τ) (v : M) :
    read f (put b a t v) = put (read f b) a t (f v) := by
  funext c u
  rw [read, put_apply, put_apply, apply_ite f]
  rfl

end Put

/-! ## Entries -/

variable {b b' : Balances α τ ℕ} {e : Entry α τ} {es es' : List (Entry α τ)}

/-- A debit that is not covered is not entered. -/
def enter (b : Balances α τ ℕ) : Entry α τ → Option (Balances α τ ℕ)
  | .debit a t n => if n ≤ b a t then some (put b a t (b a t - n)) else none
  | .credit a t n => some (put b a t (b a t + n))

/-- Entries one after the other, or nothing if one of them cannot be made. -/
def enterAll (b : Balances α τ ℕ) (es : List (Entry α τ)) : Option (Balances α τ ℕ) :=
  es.foldlM enter b

@[simp] theorem enterAll_nil (b : Balances α τ ℕ) : enterAll b [] = some b := rfl

@[simp] theorem enterAll_cons (b : Balances α τ ℕ) (e : Entry α τ) (es : List (Entry α τ)) :
    enterAll b (e :: es) = (enter b e).bind fun b' => enterAll b' es := rfl

theorem enterAll_append (b : Balances α τ ℕ) (es es' : List (Entry α τ)) :
    enterAll b (es ++ es') = (enterAll b es).bind fun b' => enterAll b' es' := by
  rw [enterAll, List.foldlM_append]
  rfl

/-- An entry changes a balance by what it credits and debits there. -/
theorem enter_apply (h : enter b e = some b') (a : α) (t : τ) :
    b' a t + e.debits a t = b a t + e.credits a t := by
  cases e with
  | debit c u n =>
    simp only [enter, Option.ite_none_right_eq_some, Option.some.injEq] at h
    obtain ⟨hle, rfl⟩ := h
    rw [put_apply, Entry.debits, Entry.credits]
    by_cases hc : c = a ∧ u = t
    · obtain ⟨rfl, rfl⟩ := hc
      simp only [and_self, if_true]
      omega
    · rw [if_neg hc, if_neg fun hca => hc ⟨hca.1.symm, hca.2.symm⟩]
  | credit c u n =>
    obtain rfl := Option.some.inj h
    rw [put_apply, Entry.debits, Entry.credits]
    by_cases hc : c = a ∧ u = t
    · obtain ⟨rfl, rfl⟩ := hc
      simp only [and_self, if_true]
      omega
    · rw [if_neg hc, if_neg fun hca => hc ⟨hca.1.symm, hca.2.symm⟩]

/-- A balance is what was there, plus the credits, less the debits. -/
theorem enterAll_apply (h : enterAll b es = some b') (a : α) (t : τ) :
    b' a t + (es.map (Entry.debits a t)).sum = b a t + (es.map (Entry.credits a t)).sum := by
  induction es generalizing b with
  | nil =>
    obtain rfl := Option.some.inj h
    rfl
  | cons e es ih =>
    obtain ⟨b₁, he, hes⟩ := Option.bind_eq_some_iff.1 h
    have hfirst := enter_apply he a t
    have hrest := ih hes
    rw [List.map_cons, List.sum_cons, List.map_cons, List.sum_cons]
    omega

/-! ## Totals -/

section Totals

variable {S : Finset α}

/-- What the accounts of `S` hold together of the good `t`. -/
def total (S : Finset α) (b : Balances α τ ℕ) (t : τ) : ℕ := ∑ a ∈ S, b a t

/-- What is taken of the good `t`, from whatever accounts. -/
def debited (t : τ) (es : List (Entry α τ)) : ℕ := (es.map (Entry.taken t)).sum

/-- What is given of the good `t`, to whatever accounts. -/
def credited (t : τ) (es : List (Entry α τ)) : ℕ := (es.map (Entry.given t)).sum

omit [DecidableEq α] in
/-- The debits of two lists add up. -/
theorem debited_append (t : τ) (es es' : List (Entry α τ)) :
    debited t (es ++ es') = debited t es + debited t es' := by
  rw [debited, List.map_append, List.sum_append]
  rfl

omit [DecidableEq α] in
/-- The credits of two lists add up. -/
theorem credited_append (t : τ) (es es' : List (Entry α τ)) :
    credited t (es ++ es') = credited t es + credited t es' := by
  rw [credited, List.map_append, List.sum_append]
  rfl

omit [DecidableEq α] [DecidableEq τ] in
/-- No balance is greater than the total. -/
theorem le_total (b : Balances α τ ℕ) {a : α} (ha : a ∈ S) (t : τ) : b a t ≤ total S b t :=
  Finset.single_le_sum (f := fun a => b a t) (fun _ _ => Nat.zero_le _) ha

omit [DecidableEq α] [DecidableEq τ] in
/-- The sums over the entries and over the accounts commute. -/
theorem sum_entries {f : α → Entry α τ → ℕ} {g : Entry α τ → ℕ}
    (h : ∀ e ∈ es, ∑ a ∈ S, f a e = g e) : ∑ a ∈ S, (es.map (f a)).sum = (es.map g).sum := by
  induction es with
  | nil => exact Finset.sum_const_zero
  | cons e es ih =>
    obtain ⟨he, hes⟩ := List.forall_mem_cons.1 h
    simp only [List.map_cons, List.sum_cons, Finset.sum_add_distrib, ih hes, he]

/-- An amount of one account, summed over the accounts. -/
theorem sum_amount {c : α} (hc : c ∈ S) (u t : τ) (n : ℕ) :
    ∑ a ∈ S, (if c = a ∧ u = t then n else 0) = if u = t then n else 0 := by
  by_cases hu : u = t
  · simp only [hu, and_true, if_true]
    rw [Finset.sum_ite_eq, if_pos hc]
  · simp only [hu, and_false, if_false, Finset.sum_const_zero]

/-- An entry debits one account. -/
theorem sum_debits (he : e.account ∈ S) (t : τ) : ∑ a ∈ S, e.debits a t = e.taken t := by
  cases e with
  | debit c u n => exact sum_amount he u t n
  | credit c u n => exact Finset.sum_const_zero

/-- An entry credits one account. -/
theorem sum_credits (he : e.account ∈ S) (t : τ) : ∑ a ∈ S, e.credits a t = e.given t := by
  cases e with
  | debit c u n => exact Finset.sum_const_zero
  | credit c u n => exact sum_amount he u t n

/-- The total is what was there, plus the credits, less the debits. -/
theorem enterAll_total (h : enterAll b es = some b') (hes : ∀ e ∈ es, e.account ∈ S) (t : τ) :
    total S b' t + debited t es = total S b t + credited t es := by
  rw [debited, credited, ← sum_entries (S := S) fun e he => sum_debits (hes e he) t,
    ← sum_entries (S := S) fun e he => sum_credits (hes e he) t, total, total,
    ← Finset.sum_add_distrib, ← Finset.sum_add_distrib]
  exact Finset.sum_congr rfl fun a _ => enterAll_apply h a t

/-- What is moved from one account to another. -/
def move (a c : α) (t : τ) (n : ℕ) : List (Entry α τ) := [.debit a t n, .credit c t n]

/-- The totals are kept by a movement. -/
theorem total_move {a c : α} {t : τ} {n : ℕ} (h : enterAll b (move a c t n) = some b')
    (ha : a ∈ S) (hc : c ∈ S) (u : τ) : total S b' u = total S b u := by
  have htotal := enterAll_total h
    (List.forall_mem_cons.2 ⟨ha, List.forall_mem_singleton.2 hc⟩) u
  simp only [move, debited, credited, List.map_cons, List.map_nil, List.sum_cons, List.sum_nil,
    Entry.taken, Entry.given] at htotal
  omega

end Totals

/-! ## Residues -/

section Residues

variable {p : ℕ} [NeZero p] {r : Balances α τ (ZMod p)} {a : α} {t : τ} {v : ZMod p}

/-- A debit is exact if it is covered. -/
theorem enter_debit_val (h : v.val ≤ (r a t).val) :
    enter (read ZMod.val r) (.debit a t v.val) = some (read ZMod.val (put r a t (r a t - v))) := by
  rw [enter, read_put, ZMod.val_sub h]
  exact if_pos h

omit [NeZero p] in
/-- A credit is exact if the sum is below the modulus. -/
theorem enter_credit_val (h : (r a t).val + v.val < p) :
    enter (read ZMod.val r) (.credit a t v.val) = some (read ZMod.val (put r a t (r a t + v))) := by
  rw [enter, read_put, ZMod.val_add_of_lt h]
  rfl

/-- A movement is exact if it is covered and the total is below the modulus. -/
theorem enterAll_move_val {S : Finset α} {c : α} (ha : a ∈ S) (hc : c ∈ S) (hne : a ≠ c)
    (h : v.val ≤ (r a t).val) (htotal : total S (read ZMod.val r) t < p) :
    enterAll (read ZMod.val r) (move a c t v.val) =
      some (read ZMod.val (put (put r a t (r a t - v)) c t (r c t + v))) := by
  have hdebit := enter_debit_val h
  -- the balance that is credited is part of the total once the other one has been debited
  have hentered : enterAll (read ZMod.val r) [.debit a t v.val] = some
      (read ZMod.val (put r a t (r a t - v))) :=
    (congrArg (Option.bind · _) hdebit).trans rfl
  have hsum := enterAll_total hentered (List.forall_mem_singleton.2 ha) t
  simp only [debited, credited, List.map_cons, List.map_nil, List.sum_cons, List.sum_nil,
    Entry.taken, Entry.given, if_true] at hsum
  have hle := le_total (read ZMod.val (put r a t (r a t - v))) hc t
  have hkept : put r a t (r a t - v) c t = r c t := put_of_ne _ _ fun hca => hne hca.1.symm
  rw [move, enterAll_cons, hdebit, Option.bind_some, enterAll_cons, ← hkept, enter_credit_val]
  · rfl
  · rw [read] at hle
    omega

end Residues

end Bookkeeping
