import Rollup.Ledger

/-!
# What the functions of the global state do to the ledger

One theorem for each function, saying all it can do. The functions that change an
entry and then commit to it are proved from what they change in the maps, and
from `flushAccountState_spec`.
-/

namespace Rollup

variable [FluidexCommon] {lv : Levels} {s s' : GlobalState lv} {L : Ledger lv} {a : ℕ} {e : Entry lv}
  {leaf : ℕ → Fr}

open GlobalState

/-! ## The initial state -/

/-- The state without accounts shows the ledger without entries. -/
theorem shows_new (lv : Levels) : Shows (GlobalState.new lv) fun _ => none where
  accountStates _ := rfl
  balanceTrees _ := rfl
  orderTrees _ := rfl
  orderStates _ := rfl
  nextOrderPositions _ := rfl
  orderIdToPos _ _ := rfl
  lt_of_some _ _ h := by cases h
  committed := ⟨Tree.represents_empty _ _, rfl, fun _ _ hmem => absurd hmem (AList.notMem_empty _)⟩

/-! ## Committing -/

/-- The entry has the current roots, the account tree is not touched yet. -/
theorem recalculateAccountStateHash_spec (h : Holds s L) (he : L a = some e) {hash : Fr}
    (hr : s.recalculateAccountStateHash a = .ok (hash, s')) :
    hash = e.commit.state.hash ∧ Holds s' (L.set a e.commit) ∧ s'.accountTree = s.accountTree := by
  simp only [recalculateAccountStateHash, unwrap, h.lookup_accountStates he,
    h.lookup_balanceTrees he, h.lookup_orderTrees he, Exec.unwrap_some, Exec.ok_bind,
    Exec.pure_eq_ok_iff, Prod.mk.injEq] at hr
  obtain ⟨rfl, rfl⟩ := hr
  exact ⟨rfl, h.insertState he _, rfl⟩

/-- Committing to the one entry that the account tree did not commit to. -/
theorem flushAccountState_spec (h : Holds s (L.set a e)) (ht : L.CommittedBy s.accountTree)
    (hr : s.flushAccountState a = .ok s') : Shows s' (L.set a e.commit) := by
  simp only [flushAccountState, Exec.bind_eq_ok_iff, Prod.exists, Exec.pure_eq_ok_iff] at hr
  obtain ⟨hash, s₁, hre, t, hset, rfl⟩ := hr
  obtain ⟨rfl, h₁, htree⟩ := recalculateAccountStateHash_spec h (L.set_self a e) hre
  rw [L.set_idem] at h₁
  rw [htree] at hset
  exact ⟨h₁.setAccountTree t, ht.set (h₁.lt (L.set_self a e.commit)) hset⟩

/-! ## Accounts -/

/-- A new key is committed to at once. -/
theorem setAccountL2Addr_spec (h : Shows s L) {sign ay : Fr}
    (hr : s.setAccountL2Addr a sign ay = .ok s') :
    ∃ e, L a = some e ∧ Shows s' (L.set a (e.setL2Addr sign ay)) := by
  simp only [setAccountL2Addr, Exec.bind_eq_ok_iff, Exec.unwrap_eq_ok_iff,
    Exec.pure_eq_ok_iff] at hr
  obtain ⟨acc, hacc, t, hset, rfl⟩ := hr
  obtain ⟨e, he, rfl⟩ := h.exists_entry hacc
  exact ⟨e, he, (h.insertState he _).setAccountTree t, h.committed.set (h.lt he) hset⟩

omit [FluidexCommon] in
/-- A new nonce is not committed to yet. -/
theorem updateNonce_spec (h : Holds s L) (he : L a = some e) {nonce : Fr}
    (hr : s.updateNonce a nonce = .ok s') :
    Holds s' (L.set a (e.setNonce nonce)) ∧ s'.accountTree = s.accountTree := by
  simp only [updateNonce, unwrap, h.lookup_accountStates he, Exec.unwrap_some, Exec.ok_bind,
    Exec.pure_eq_ok_iff] at hr
  subst hr
  exact ⟨h.insertState he _, rfl⟩

theorem setAccountNonce_spec (h : Shows s L) {nonce : Fr} (hr : s.setAccountNonce a nonce = .ok s') :
    ∃ e, L a = some e ∧ Shows s' (L.set a (e.setNonce nonce).commit) := by
  simp only [setAccountNonce, Exec.bind_eq_ok_iff] at hr
  obtain ⟨s₁, hn, hf⟩ := hr
  obtain ⟨acc, hacc, -⟩ := Exec.bind_eq_ok_iff.1 hn
  obtain ⟨e, he, -⟩ := h.exists_entry (Exec.unwrap_eq_ok_iff.1 hacc)
  obtain ⟨h₁, htree⟩ := updateNonce_spec h.toHolds he hn
  exact ⟨e, he, flushAccountState_spec h₁ (htree ▸ h.committed) hf⟩

theorem increaseNonce_spec (h : Shows s L) (he : L a = some e) (hr : s.increaseNonce a = .ok s') :
    Shows s' (L.set a (e.setNonce (e.state.nonce + 1)).commit) := by
  simp only [increaseNonce, unwrap, h.lookup_accountStates he, Exec.unwrap_some,
    Exec.ok_bind] at hr
  obtain ⟨e', he', h'⟩ := setAccountNonce_spec h hr
  rwa [Option.some.inj (he.symm.trans he')] at h' ⊢

/-- Nothing is done for an account that exists, or out of range. -/
theorem initAccount_spec (h : Shows s L) {n : ℕ} {r : Except AnyhowError ℕ}
    (hr : s.initAccount a n = .ok (r, s')) :
    ((L a).isSome ∧ r = .ok a ∧ s' = s) ∨
      (L a = none ∧ 2 ^ lv.accountLevels ≤ a ∧ r = .error (accountIdOverflows lv a) ∧ s' = s) ∨
      (L a = none ∧ a < 2 ^ lv.accountLevels ∧ r = .ok a ∧ Shows s' (L.set a (.create lv n))) := by
  rw [initAccount] at hr
  split at hr
  · next hmem =>
    rw [Exec.pure_eq_ok_iff, Prod.mk.injEq] at hr
    exact .inl ⟨h.mem_accountStates.1 hmem, hr.1.symm, hr.2.symm⟩
  · next hmem =>
    -- without an entry, the account is created if it is in range
    have hnone : L a = none := by simpa [h.mem_accountStates] using hmem
    split at hr
    · next hle =>
      rw [Exec.pure_eq_ok_iff, Prod.mk.injEq] at hr
      exact .inr (.inl ⟨hnone, hle, hr.1.symm, hr.2.symm⟩)
    · next hlt =>
      have hlt := not_le.1 hlt
      simp only [Exec.bind_eq_ok_iff, Exec.pure_eq_ok_iff, Prod.mk.injEq] at hr
      obtain ⟨t, hset, rfl, rfl⟩ := hr
      refine .inr (.inr ⟨hnone, hlt, rfl, ?_, ?_⟩)
      · refine h.set hlt (.insert _ _ _) (.insert _ _ _) (.insert _ _ _) (.insert _ _ _)
          (.insert _ _ _) fun b orderId => ?_
        split
        · next hb => rw [hb, h.orderIdToPos, hnone]; rfl
        · rfl
      · exact h.committed.set hlt hset

/-- The new account is one that did not exist, or nothing happens. -/
theorem createNewAccount_spec (h : Shows s L) {n : ℕ} {r : Except AnyhowError ℕ}
    (hr : s.createNewAccount n = .ok (r, s')) :
    s' = s ∨ ∃ a, L a = none ∧ r = .ok a ∧ Shows s' (L.set a (.create lv n)) := by
  rw [createNewAccount] at hr
  split at hr
  · rw [Exec.pure_eq_ok_iff, Prod.mk.injEq] at hr
    exact .inl hr.2.symm
  · rcases initAccount_spec h hr with ⟨-, -, rfl⟩ | ⟨-, -, -, rfl⟩ | ⟨hnone, -, rfl, h'⟩
    · exact .inl rfl
    · exact .inl rfl
    · exact .inr ⟨_, hnone, rfl, h'⟩

/-! ## Orders -/

omit [FluidexCommon] in
/-- The order is stored, its leaf is as before. -/
theorem updateOrderState_spec (h : Holds s L) (he : L a = some e) {pos : ℕ} {order : Order}
    (hr : s.updateOrderState a pos order = .ok s') :
    Holds s' (L.set a (e.setOrder pos order)) ∧ s'.accountTree = s.accountTree := by
  simp only [updateOrderState, unwrap, h.lookup_orderStates he, Exec.unwrap_some, Exec.ok_bind,
    Exec.pure_eq_ok_iff] at hr
  subst hr
  exact ⟨h.insertOrders he _, rfl⟩

/-- The order is stored in range, with its leaf and its position. -/
theorem setAccountOrder_spec (h : Shows s L) {pos : ℕ} {order : Order}
    (hr : s.setAccountOrder a pos order = .ok s') :
    ∃ e t, L a = some e ∧ pos < 2 ^ lv.orderLevels ∧ e.orderTree.setValue pos order.hash = .ok t ∧
      Shows s' (L.set a
        (((e.setOrderTree t).setOrder pos order).setOrderPos order.orderId pos).commit) := by
  obtain ⟨hmem, hr⟩ := Exec.assert_bind_eq_ok_iff.1 hr
  obtain ⟨e, he⟩ := Option.isSome_iff_exists.1 (h.mem_orderTrees.1 hmem)
  split at hr
  · cases hr
  · next hpos =>
    simp only [unwrap, h.lookup_orderTrees he, Exec.unwrap_some, Exec.ok_bind] at hr
    obtain ⟨t, ht, hr⟩ := Exec.bind_eq_ok_iff.1 hr
    obtain ⟨s₁, hs₁, hr⟩ := Exec.bind_eq_ok_iff.1 hr
    have h₁ := updateOrderState_spec (h.insertOrderTree he t) (L.set_self a _) hs₁
    rw [L.set_idem] at h₁
    have h₂ := h₁.1.insertOrderPos (L.set_self a _) order.orderId pos
    rw [L.set_idem] at h₂
    exact ⟨e, t, he, not_le.1 hpos, ht,
      flushAccountState_spec h₂ (h₁.2 ▸ h.committed) hr⟩

/-- The order stays in its slot, closed. -/
theorem cancelOrder_spec (h : Shows s L) {orderId : ℕ} (hr : s.cancelOrder a orderId = .ok s') :
    ∃ e pos order, L a = some e ∧ e.orderPos orderId = some pos ∧
      e.orders.lookup pos = some order ∧
      Shows s' (L.set a (e.setOrder pos { order with isActive := false })) := by
  simp only [cancelOrder, Exec.bind_eq_ok_iff, Exec.unwrap_eq_ok_iff] at hr
  obtain ⟨pos, hpos, orders, horders, order, horder, hr⟩ := hr
  rw [getOrderPosById, h.orderIdToPos, Option.bind_eq_some_iff] at hpos
  obtain ⟨e, he, hpos⟩ := hpos
  obtain rfl : e.orders = orders := Option.some.inj ((h.lookup_orderStates he).symm.trans horders)
  obtain ⟨h', htree⟩ := updateOrderState_spec h.toHolds he hr
  exact ⟨e, pos, order, he, hpos, horder, h.of_holds he h' htree rfl⟩

/-! ## Balances -/

/-- One leaf of one tree is written. -/
theorem setTokenBalanceRaw_spec (h : Holds s L) {token : ℕ} {v : Fr}
    (hr : s.setTokenBalanceRaw a token v = .ok s') :
    ∃ e t, L a = some e ∧ e.balanceTree.setValue token v = .ok t ∧
      Holds s' (L.set a (e.setBalanceTree t)) ∧ s'.accountTree = s.accountTree := by
  obtain ⟨hmem, hr⟩ := Exec.assert_bind_eq_ok_iff.1 hr
  obtain ⟨e, he⟩ := Option.isSome_iff_exists.1 (h.mem_balanceTrees.1 hmem)
  simp only [unwrap, h.lookup_balanceTrees he, Exec.unwrap_some, Exec.ok_bind,
    Exec.bind_eq_ok_iff, Exec.pure_eq_ok_iff] at hr
  obtain ⟨t, ht, rfl⟩ := hr
  exact ⟨e, t, he, ht, h.insertBalanceTree he t, rfl⟩

/-- The account exists afterwards, as it was or new. -/
theorem ensureAccount_spec (h : Shows s L) (hr : s.ensureAccount a = .ok s') :
    Shows s' (L.set a (L.entry a)) := by
  rw [ensureAccount] at hr
  split at hr
  · next hmem =>
    obtain ⟨e, he⟩ := Option.isSome_iff_exists.1 (h.mem_accountStates.1 hmem)
    rw [Exec.pure_eq_ok_iff] at hr
    rwa [Ledger.entry_of_some he, Ledger.set_eq_self he, ← hr]
  · next hmem =>
    simp only [Exec.bind_eq_ok_iff, Exec.unwrap_eq_ok_iff, Exec.pure_eq_ok_iff, Prod.exists] at hr
    obtain ⟨r, s₁, hinit, a', hr', rfl⟩ := hr
    rcases initAccount_spec h hinit with ⟨hsome, -⟩ | ⟨-, -, rfl, -⟩ | ⟨hnone, -, -, h'⟩
    · exact absurd (h.mem_accountStates.2 hsome) hmem
    · cases hr'
    · rwa [Ledger.entry, hnone]

/-- The balance is written, in a new account if need be. -/
theorem setTokenBalance_spec (h : Shows s L) {token : ℕ} {v : Fr}
    (hr : s.setTokenBalance a token v = .ok s') :
    ∃ t, (L.entry a).balanceTree.setValue token v = .ok t ∧
      Shows s' (L.set a ((L.entry a).setBalanceTree t).commit) := by
  simp only [setTokenBalance, Exec.bind_eq_ok_iff] at hr
  obtain ⟨s₁, hs₁, s₂, hs₂, hr⟩ := hr
  have h₁ := ensureAccount_spec h hs₁
  obtain ⟨e, t, he, ht, h₂, htree⟩ := setTokenBalanceRaw_spec h₁.toHolds hs₂
  obtain rfl : L.entry a = e := Option.some.inj ((L.set_self a _).symm.trans he)
  refine ⟨t, ht, ?_⟩
  have h₃ := flushAccountState_spec h₂ (htree ▸ h₁.committed) hr
  rwa [L.set_idem] at h₃

end Rollup
