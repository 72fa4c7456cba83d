import Mathlib.Algebra.BigOperators.Group.Finset.Basic
import Rollup.Mirror

/-!
# Balances

The balance of an account is the leaf of its balance tree (`balanceOf`); there is
none for a token without a leaf. Balances are field elements: read as integers,
they are added and subtracted exactly as long as the sums are smaller than the
field and the differences are not negative.
-/

namespace Rollup

/-! ## Integers in the field -/

/-- Amounts are smaller than the field. -/
theorem U128.toFr_val (amount : U128) : amount.toFr.val = amount.toNat :=
  Fr.val_natCast amount.isLt (by decide)

/-- A sum is exact when it is smaller than the field. -/
theorem Fr.val_add_eq_iff (x y : Fr) : (x + y).val = x.val + y.val ↔ x.val + y.val < Fr.modulus := by
  constructor
  · intro h
    rw [← h]
    exact ZMod.val_lt _
  · exact ZMod.val_add_of_lt

/-! ## Sums -/

/-- A sum is kept if only two of its terms change, and their sum does not. -/
theorem sum_eq_of_two {S : Finset ℕ} {f g : ℕ → ℕ} {a b : ℕ} (ha : a ∈ S) (hb : b ∈ S)
    (hab : a ≠ b) (hother : ∀ c, c ≠ a → c ≠ b → g c = f c) (h : g a + g b = f a + f b) :
    ∑ c ∈ S, g c = ∑ c ∈ S, f c := by
  have hb' : b ∈ S.erase a := Finset.mem_erase.2 ⟨hab.symm, hb⟩
  have hrest : ∑ c ∈ (S.erase a).erase b, g c = ∑ c ∈ (S.erase a).erase b, f c := by
    refine Finset.sum_congr rfl fun c hc => ?_
    rw [Finset.mem_erase, Finset.mem_erase] at hc
    exact hother c hc.2.1 hc.1
  rw [← Finset.add_sum_erase S _ ha, ← Finset.add_sum_erase S _ ha,
    ← Finset.add_sum_erase _ _ hb', ← Finset.add_sum_erase _ _ hb', hrest]
  omega

/-- If only one term changes, the sum is kept exactly when that term is. -/
theorem sum_eq_iff_of_one {S : Finset ℕ} {f g : ℕ → ℕ} {a : ℕ} (ha : a ∈ S)
    (hother : ∀ c, c ≠ a → g c = f c) : ∑ c ∈ S, g c = ∑ c ∈ S, f c ↔ g a = f a := by
  have hrest : ∑ c ∈ S.erase a, g c = ∑ c ∈ S.erase a, f c :=
    Finset.sum_congr rfl fun c hc => hother c (Finset.ne_of_mem_erase hc)
  rw [← Finset.add_sum_erase S _ ha, ← Finset.add_sum_erase S _ ha, hrest]
  omega

/-! ## The balances of the accounts -/

section Balances

variable [FluidexCommon] {lv : Levels}

/-- The balance of an account, zero for a token without a leaf. -/
def GlobalState.balanceOf (s : GlobalState lv) (accountId tokenId : ℕ) : Fr :=
  if tokenId < 2 ^ lv.balanceLevels then (s.balanceProof accountId tokenId).leaf else 0

/-- The sum of the balances of all the accounts, as an integer. -/
def GlobalState.totalOf (s : GlobalState lv) (tokenId : ℕ) : ℕ :=
  ∑ a ∈ Finset.range (2 ^ lv.accountLevels), (s.balanceOf a tokenId).val

variable {s : GlobalState lv} {L : Ledger lv} {token : ℕ}

theorem Holds.balanceOf_eq (h : Holds s L) (a : ℕ) (htoken : token < 2 ^ lv.balanceLevels) :
    s.balanceOf a token = (L.entry a).balanceTree.getLeaf token := by
  rw [GlobalState.balanceOf, if_pos htoken, h.balanceProof_eq]
  rfl

theorem GlobalState.balanceOf_of_le (s : GlobalState lv) (a : ℕ)
    (htoken : ¬token < 2 ^ lv.balanceLevels) : s.balanceOf a token = 0 :=
  if_neg htoken

/-- Only the tokens with leaves have balances to compare. -/
theorem GlobalState.balanceOf_congr {s' : GlobalState lv} {a : ℕ}
    (h : token < 2 ^ lv.balanceLevels → s'.balanceOf a token = s.balanceOf a token) :
    s'.balanceOf a token = s.balanceOf a token := by
  by_cases htoken : token < 2 ^ lv.balanceLevels
  · exact h htoken
  · rw [balanceOf_of_le _ _ htoken, balanceOf_of_le _ _ htoken]

/-- What is read is the balance, or zero for an account without a key. -/
theorem Holds.entry_balance_eq (h : Holds s L) (a : ℕ) (htoken : token < 2 ^ lv.balanceLevels) :
    (L.entry a).balance token = if s.hasAccount a then s.balanceOf a token else 0 := by
  rw [h.balanceOf_eq a htoken, Entry.balance]
  by_cases ha : (L.entry a).state.ay = 0
  · rw [if_pos ha, if_neg (by rw [h.hasAccount_iff]; exact not_not.2 ha)]
  · rw [if_neg ha, if_pos ((h.hasAccount_iff a).2 ha)]

end Balances

end Rollup
