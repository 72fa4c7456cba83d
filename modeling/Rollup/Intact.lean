import Rollup.Ledger.Ops
import Rollup.Manager
import Rollup.Tree.Checked

/-!
# Intact states

A state is *intact* if its maps have the same accounts, and in the trees of their balances and
in the account tree every parent is the hash of its children (`GlobalState.Intact`). All the
public functions of the state keep it intact, in whatever order they are called
(`GlobalState.intact_of_checked`), except one: `batchUpdate` in parallel, and so transfers and
trades, when a token has no leaf, as the indices of leaves written by chunks are not checked.

The state of an account, its orders and their hashes may be changed without the leaf committing
to the account: an intact state need not show a ledger (`Shows`).
-/

namespace Rollup

section Intact

variable [FluidexCommon] {lv : Levels} {s s' : GlobalState lv} {a : ℕ}

open Exec (Ensures)

namespace GlobalState

/-- The maps are those of a ledger; the account tree and the trees of the balances are
    Merkle trees. -/
structure Intact (s : GlobalState lv) : Prop where
  accountTree : s.accountTree.IsMerkle
  entries : ∃ L, Holds s L ∧ ∀ a, (L.entry a).balanceTree.IsMerkle

/-- The state without accounts is intact. -/
theorem intact_new (lv : Levels) : (GlobalState.new lv).Intact where
  accountTree := (Tree.represents_empty _ _).isMerkle
  entries := ⟨_, (shows_new lv).toHolds, fun _ => (Tree.represents_empty _ _).isMerkle⟩

namespace Intact

/-! ## Replacing a value in one of the maps -/

/-- Another Merkle tree may take the place of the account tree. -/
theorem setAccountTree (h : s.Intact) {t : Tree lv.accountLevels} (ht : t.IsMerkle) :
    Intact { s with accountTree := t } := by
  obtain ⟨L, hL, hM⟩ := h.entries
  exact ⟨ht, L, hL.setAccountTree t, hM⟩

/-- The entry of an account is replaced by one with a Merkle tree. -/
theorem set (h : s.Intact) (htree : s'.accountTree = s.accountTree)
    (hset : ∀ L, Holds s L → (∀ a, (L.entry a).balanceTree.IsMerkle) →
      ∃ a e, Holds s' (L.set a e) ∧ e.balanceTree.IsMerkle) : s'.Intact := by
  obtain ⟨L, hL, hM⟩ := h.entries
  obtain ⟨a, e, h', he⟩ := hset L hL hM
  have hM' : ∀ b, ((L.set a e).entry b).balanceTree.IsMerkle :=
    Ledger.forall_set (P := fun e => e.balanceTree.IsMerkle) hM he a
  exact ⟨htree ▸ h.accountTree, L.set a e, h', hM'⟩

/-- The state of an account may become any other one. -/
theorem insertState (h : s.Intact) {acc : AccountState}
    (hl : s.accountStates.lookup a = some acc) (acc' : AccountState) :
    Intact { s with accountStates := s.accountStates.insert a acc' } := by
  refine h.set rfl fun L hL hM => ?_
  obtain ⟨e, he, -⟩ := hL.exists_entry hl
  exact ⟨a, _, hL.insertState he acc', Ledger.entry_of_some he ▸ hM a⟩

/-- A tree of balances may only be replaced by a Merkle tree. -/
theorem insertBalanceTree (h : s.Intact) {t t' : Tree lv.balanceLevels}
    (hl : s.balanceTrees.lookup a = some t) (ht : t.IsMerkle → t'.IsMerkle) :
    Intact { s with balanceTrees := s.balanceTrees.insert a t' } := by
  refine h.set rfl fun L hL hM => ?_
  rw [hL.balanceTrees, Option.map_eq_some_iff] at hl
  obtain ⟨e, he, rfl⟩ := hl
  exact ⟨a, _, hL.insertBalanceTree he t', ht (Ledger.entry_of_some he ▸ hM a)⟩

/-- Nothing is asked of the trees of the orders. -/
theorem insertOrderTree (h : s.Intact) {t : Tree lv.orderLevels}
    (hl : s.orderTrees.lookup a = some t) (t' : Tree lv.orderLevels) :
    Intact { s with orderTrees := s.orderTrees.insert a t' } := by
  refine h.set rfl fun L hL hM => ?_
  rw [hL.orderTrees, Option.map_eq_some_iff] at hl
  obtain ⟨e, he, rfl⟩ := hl
  exact ⟨a, _, hL.insertOrderTree he t', Ledger.entry_of_some he ▸ hM a⟩

/-- Nothing is asked of the orders. -/
theorem insertOrders (h : s.Intact) {orders : BTreeMap ℕ Order}
    (hl : s.orderStates.lookup a = some orders) (orders' : BTreeMap ℕ Order) :
    Intact { s with orderStates := s.orderStates.insert a orders' } := by
  refine h.set rfl fun L hL hM => ?_
  rw [hL.orderStates, Option.map_eq_some_iff] at hl
  obtain ⟨e, he, rfl⟩ := hl
  exact ⟨a, _, hL.insertOrders he orders', Ledger.entry_of_some he ▸ hM a⟩

theorem insertNextOrderPos (h : s.Intact) {orders : BTreeMap ℕ Order}
    (hl : s.orderStates.lookup a = some orders) (pos : ℕ) :
    Intact { s with nextOrderPositions := s.nextOrderPositions.insert a pos } := by
  refine h.set rfl fun L hL hM => ?_
  rw [hL.orderStates, Option.map_eq_some_iff] at hl
  obtain ⟨e, he, rfl⟩ := hl
  exact ⟨a, _, hL.insertNextOrderPos he pos, Ledger.entry_of_some he ▸ hM a⟩

/-- Nothing is asked of the positions, if the account exists. -/
theorem insertOrderPos (h : s.Intact) (hmem : a ∈ s.orderTrees) (orderId pos : ℕ) :
    Intact { s with orderIdToPos := s.orderIdToPos.insert (a, orderId) pos } := by
  refine h.set rfl fun L hL hM => ?_
  obtain ⟨e, he⟩ := Option.isSome_iff_exists.1 (hL.mem_orderTrees.1 hmem)
  exact ⟨a, _, hL.insertOrderPos he orderId pos, Ledger.entry_of_some he ▸ hM a⟩

/-! ## Accounts -/

/-- The accounts that exist have leaves. -/
theorem lt (h : s.Intact) (hmem : a ∈ s.accountStates) : a < 2 ^ lv.accountLevels := by
  obtain ⟨L, hL, -⟩ := h.entries
  obtain ⟨e, he⟩ := Option.isSome_iff_exists.1 (hL.mem_accountStates.1 hmem)
  exact hL.lt he

/-- An account for which there is something to hash has a leaf. -/
theorem recalculateAccountStateHash (h : s.Intact) (a : ℕ) :
    Ensures (fun r => a < 2 ^ lv.accountLevels ∧ r.2.Intact) (s.recalculateAccountStateHash a) := by
  refine .bind_any fun acc hacc => .bind_any fun _ _ => .bind_any fun _ _ => ?_
  rw [Exec.unwrap_eq_ok_iff] at hacc
  exact .pure ⟨h.lt (AList.lookup_isSome.1 (by rw [hacc]; rfl)), h.insertState hacc _⟩

/-- The leaf that is written is in range, so the account tree stays a Merkle tree. -/
theorem flushAccountState (h : s.Intact) (a : ℕ) : Ensures Intact (s.flushAccountState a) :=
  (h.recalculateAccountStateHash a).bind fun _ h₁ => .bind_any fun _ hset =>
    .pure (h₁.2.setAccountTree (h₁.2.accountTree.setValue hset))

theorem setAccountL2Addr (h : s.Intact) (a : ℕ) (sign ay : Fr) :
    Ensures Intact (s.setAccountL2Addr a sign ay) :=
  .bind_any fun _ hacc => .bind_any fun _ hset =>
    .pure ((h.insertState (Exec.unwrap_eq_ok_iff.1 hacc) _).setAccountTree
      (h.accountTree.setValue hset))

theorem setNewL2Addr (h : s.Intact) (a : ℕ) (l2key : Option L2Key) :
    Ensures Intact (s.setNewL2Addr a l2key) := by
  cases l2key with
  | some l2key => exact h.setAccountL2Addr a _ _
  | none => exact .pure h

theorem updateNonce (h : s.Intact) (a : ℕ) (nonce : Fr) : Ensures Intact (s.updateNonce a nonce) :=
  .bind_any fun _ hacc => .pure (h.insertState (Exec.unwrap_eq_ok_iff.1 hacc) _)

theorem updateNewNonce (h : s.Intact) (a : ℕ) (nonce : Option Fr) :
    Ensures Intact (s.updateNewNonce a nonce) := by
  cases nonce with
  | some nonce => exact h.updateNonce a nonce
  | none => exact .pure h

theorem setAccountNonce (h : s.Intact) (a : ℕ) (nonce : Fr) :
    Ensures Intact (s.setAccountNonce a nonce) :=
  (h.updateNonce a nonce).bind fun _ h₁ => h₁.flushAccountState a

theorem increaseNonce (h : s.Intact) (a : ℕ) : Ensures Intact (s.increaseNonce a) :=
  .bind_any fun _ _ => h.setAccountNonce a _

theorem setAccountOrderRoot (h : s.Intact) (a : ℕ) (orderRoot : Fr) :
    Ensures Intact (s.setAccountOrderRoot a orderRoot) :=
  .bind_any fun _ hacc =>
    (h.insertState (Exec.unwrap_eq_ok_iff.1 hacc) _).flushAccountState a

/-- A new account. -/
theorem initAccount (h : s.Intact) (a nextOrderId : ℕ) :
    Ensures (fun r => r.2.Intact) (s.initAccount a nextOrderId) := by
  refine .ite (fun _ => .pure h) fun hnew => .ite (fun _ => .pure h) fun hlt => ?_
  refine .bind_any fun t hset => .pure ?_
  have h₁ := h.setAccountTree (h.accountTree.setValue hset)
  refine h₁.set rfl fun L hL hM => ?_
  have hnone : L a = none := by
    rwa [← Option.not_isSome_iff_eq_none, ← hL.mem_accountStates]
  refine ⟨a, .create lv nextOrderId, ?_, (Tree.represents_empty _ _).isMerkle⟩
  refine hL.set (not_le.1 hlt) (.insert _ _ _) (.insert _ _ _) (.insert _ _ _) (.insert _ _ _)
    (.insert _ _ _) fun b orderId => ?_
  split
  · next hb => rw [hb, hL.orderIdToPos, hnone]; rfl
  · rfl

/-- A new account has empty trees, which are Merkle trees. -/
theorem createNewAccount (h : s.Intact) (nextOrderId : ℕ) :
    Ensures (fun r => r.2.Intact) (s.createNewAccount nextOrderId) := by
  rw [GlobalState.createNewAccount]
  split
  · exact .pure h
  · exact h.initAccount _ _

theorem ensureAccount (h : s.Intact) (a : ℕ) : Ensures Intact (s.ensureAccount a) :=
  .ite (fun _ => .pure h) fun _ => (h.initAccount a _).bind fun _ h₁ => .bind_any fun _ _ => .pure h₁

/-! ## Orders -/

theorem updateOrderState (h : s.Intact) (a pos : ℕ) (order : Order) :
    Ensures Intact (s.updateOrderState a pos order) :=
  .bind_any fun _ horders => .pure (h.insertOrders (Exec.unwrap_eq_ok_iff.1 horders) _)

theorem setOrderLeafHashRaw (h : s.Intact) (a pos : ℕ) (hash : Fr) :
    Ensures Intact (s.setOrderLeafHashRaw a pos hash) :=
  .assert_bind fun _ => .bind_any fun _ ht => .bind_any fun _ _ =>
    .pure (h.insertOrderTree (Exec.unwrap_eq_ok_iff.1 ht) _)

theorem setOrderLeafHash (h : s.Intact) (a pos : ℕ) (hash : Fr) :
    Ensures Intact (s.setOrderLeafHash a pos hash) :=
  (h.setOrderLeafHashRaw a pos hash).bind fun _ h₁ => h₁.flushAccountState a

/-- Of the state, the search only changes where the next one begins. -/
theorem replaceClosedOrder (h : s.Intact) {orders : BTreeMap ℕ Order}
    (hl : s.orderStates.lookup a = some orders) (orderId startPos : ℕ) (is : List ℕ) :
    Ensures (fun r => r.2.Intact) (s.replaceClosedOrder a orderId startPos is) := by
  induction is with
  | nil => exact .error
  | cons i is ih =>
    refine .bind_any fun order _ => .assert_bind fun _ => .ite (fun _ => ?_) fun _ => ih
    refine .assert_bind fun _ => .ite (fun _ => .pure ?_) fun _ => ih
    exact h.insertNextOrderPos hl _

theorem getNextOrderPosForUser (h : s.Intact) (a orderId : ℕ) :
    Ensures (fun r => r.2.Intact) (s.getNextOrderPosForUser a orderId) := by
  refine .bind_any fun orders horders => .assert_bind fun _ => .ite (fun _ => ?_) fun _ => ?_
  · exact .assert_bind fun _ => .pure h
  · exact .bind_any fun _ _ => h.replaceClosedOrder (Exec.unwrap_eq_ok_iff.1 horders) _ _ _

theorem setOrderPosForId (h : s.Intact) (a pos orderId : ℕ) :
    Ensures Intact (s.setOrderPosForId a pos orderId) :=
  .assert_bind fun hmem => .ite (fun _ => .error) fun _ => .pure (h.insertOrderPos hmem _ _)

theorem findOrInsertOrder (h : s.Intact) (a : ℕ) (order : Order) :
    Ensures (fun r => r.2.Intact) (s.findOrInsertOrder a order) := by
  rw [GlobalState.findOrInsertOrder]
  split
  · exact .bind_any fun _ _ => .pure h
  · refine (h.getNextOrderPosForUser a _).bind fun _ h₁ => .bind_any fun _ _ => ?_
    exact (h₁.setOrderPosForId a _ _).bind fun _ h₂ => .pure h₂

/-- The order, its leaf and its position are stored for an account that exists. -/
theorem setAccountOrder (h : s.Intact) (a pos : ℕ) (order : Order) :
    Ensures Intact (s.setAccountOrder a pos order) := by
  refine .assert_bind fun hmem => .ite (fun _ => .error) fun _ => ?_
  refine .bind_any fun t ht => .bind_any fun t' _ => ?_
  have h₁ := h.insertOrderTree (Exec.unwrap_eq_ok_iff.1 ht) t'
  refine .bind_any fun s₂ hs₂ => ?_
  have h₂ := h₁.updateOrderState a pos order s₂ hs₂
  have hmem₂ : a ∈ s₂.orderTrees := by
    obtain ⟨_, _, hs₂⟩ := Exec.bind_eq_ok_iff.1 hs₂
    rw [← Exec.pure_eq_ok_iff.1 hs₂]
    exact (AList.mem_insert _).2 (.inl rfl)
  exact (h₂.insertOrderPos hmem₂ _ _).flushAccountState a

theorem cancelOrder (h : s.Intact) (a orderId : ℕ) : Ensures Intact (s.cancelOrder a orderId) :=
  .bind_any fun _ _ => .bind_any fun _ _ => .bind_any fun _ _ => h.updateOrderState a _ _

/-! ## Balances -/

/-- Setting a leaf checks its index. -/
theorem setTokenBalanceRaw (h : s.Intact) (a token : ℕ) (balance : Fr) :
    Ensures Intact (s.setTokenBalanceRaw a token balance) :=
  .assert_bind fun _ => .bind_any fun _ ht => .bind_any fun _ hset =>
    .pure (h.insertBalanceTree (Exec.unwrap_eq_ok_iff.1 ht) fun hM => hM.setValue hset)

theorem setTokenBalance (h : s.Intact) (a token : ℕ) (balance : Fr) :
    Ensures Intact (s.setTokenBalance a token balance) :=
  (h.ensureAccount a).bind fun _ h₁ => (h₁.setTokenBalanceRaw a token balance).bind fun _ h₂ =>
    h₂.flushAccountState a

end Intact

end GlobalState

/-! ## Batches -/

/-- The balances are those of tokens that have leaves. -/
def AccountUpdates.InRange (lv : Levels) (update : AccountUpdates) : Prop :=
  ∀ u ∈ update.balanceUpdates, u.1 < 2 ^ lv.balanceLevels

/-- The balances are those of tokens that have leaves; nothing is asked of the orders. -/
def Task.InRange (lv : Levels) : Task → Prop
  | .balance _ updates _ => ∀ u ∈ updates, u.1 < 2 ^ lv.balanceLevels
  | .order _ _ _ => True

omit [FluidexCommon] in
/-- The tasks of an update are in range if the update is. -/
theorem AccountUpdates.InRange.tasks {update : AccountUpdates} (h : update.InRange lv) :
    ∀ task ∈ update.tasks, task.InRange lv := by
  simpa [AccountUpdates.tasks, Task.InRange, AccountUpdates.InRange] using h

namespace GlobalState.Intact

/-- Writing by chunks keeps a Merkle tree as long as every index is one of a leaf. -/
theorem runTask (h : s.Intact) {task : Task} (htask : task.InRange lv) :
    Ensures Intact (s.runTask task) := by
  cases task with
  | balance a updates parallel =>
    refine .bind_any fun t ht => .bind_any fun t' hset => .pure ?_
    exact h.insertBalanceTree (Exec.unwrap_eq_ok_iff.1 ht) fun hM =>
      (hM.represents.setValueParallel htask hset).isMerkle
  | order a updates parallel =>
    refine .bind_any fun t ht => .bind_any fun t' _ => .pure ?_
    exact h.insertOrderTree (Exec.unwrap_eq_ok_iff.1 ht) t'

/-- The ids of the hashes for the account tree are those of leaves. -/
theorem updateAccountStates (h : s.Intact) (updates : List AccountUpdates) :
    Ensures (fun r => (∀ u ∈ r.1, u.1 < 2 ^ lv.accountLevels) ∧ r.2.Intact)
      (s.updateAccountStates updates) := by
  induction updates generalizing s with
  | nil => exact .pure ⟨List.forall_mem_nil _, h⟩
  | cons update updates ih =>
    refine (h.updateNewNonce _ _).bind fun s₁ h₁ => (h₁.recalculateAccountStateHash _).bind ?_
    rintro ⟨hash, s₂⟩ ⟨hlt, h₂⟩
    exact (ih h₂).bind fun r h₃ => .pure ⟨List.forall_mem_cons.2 ⟨hlt, h₃.1⟩, h₃.2⟩

/-- The functions that write leaf by leaf check every index themselves. -/
theorem updateSequentially (h : s.Intact) (update : AccountUpdates) :
    Ensures Intact (s.updateSequentially update) := by
  have hbalances := Ensures.foldlM (l := update.balanceUpdates)
    (fun s u _ (h : s.Intact) => h.setTokenBalanceRaw update.accountId u.1 u.2) h
  refine hbalances.bind fun s₁ h₁ => ?_
  have horders := Ensures.foldlM (l := update.orderUpdates)
    (fun s u _ (h : s.Intact) => h.setOrderLeafHashRaw update.accountId u.1 u.2) h₁
  refine horders.bind fun s₂ h₂ => (h₂.updateNewNonce _ _).bind fun s₃ h₃ => ?_
  exact h₃.flushAccountState _

/-- One account after the other, whatever is out of range is rejected, or there already. -/
theorem batchUpdate (h : s.Intact) (schedule : Shuffle Task) {updates : List AccountUpdates}
    {parallel : Bool} (hu : parallel = true → ∀ update ∈ updates, update.InRange lv) :
    Ensures Intact (s.batchUpdate schedule updates parallel) := by
  refine .ite (fun hp => ?_) fun _ => .foldlM (fun s u _ h => h.updateSequentially u) h
  have htasks : Ensures Intact
      (s.runTasks (schedule.order (updates.flatMap AccountUpdates.tasks))) := by
    refine .foldlM (fun s task ht h => h.runTask ?_) h
    rw [(schedule.perm _).mem_iff, List.mem_flatMap] at ht
    obtain ⟨update, hupdate, ht⟩ := ht
    exact (hu hp update hupdate).tasks task ht
  refine .bind_any fun _ _ => htasks.bind fun s₁ h₁ => (h₁.updateAccountStates updates).bind ?_
  rintro ⟨hashes, s₂⟩ ⟨hlt, h₂⟩
  refine .bind_any fun t hset => .pure (h₂.setAccountTree ?_)
  exact (h₂.accountTree.represents.setValueParallel hlt hset).isMerkle

/-! ## Transactions -/

variable {offset : Option ℤ}

theorem keyUpdate (h : s.Intact) (tx : UpdateKeyTx) :
    Ensures (fun r => r.2.Intact) (s.keyUpdate tx offset) := by
  refine .ite (fun _ => .pure h) fun _ => .bind_any fun _ _ => ?_
  exact (h.setTokenBalance _ _ _).bind fun _ h₁ => (h₁.setAccountL2Addr _ _ _).bind fun _ h₂ =>
    .pure h₂

theorem deposit (h : s.Intact) (tx : DepositTx) :
    Ensures (fun r => r.2.Intact) (s.deposit tx offset) := by
  refine .ite (fun _ => .pure h) fun _ => .ite (fun _ => .pure h) fun _ => .bind_any fun _ _ => ?_
  exact (h.setTokenBalance _ _ _).bind fun _ h₁ => (h₁.setNewL2Addr _ _).bind fun _ h₂ => .pure h₂

/-- A transfer runs a batch in parallel: its token must have a leaf. -/
theorem transfer (h : s.Intact) (schedule : Shuffle Task) {tx : TransferTx}
    (htoken : tx.tokenId < 2 ^ lv.balanceLevels) :
    Ensures (fun r => r.2.Intact) (s.transfer schedule tx offset) := by
  refine .assert_bind fun _ => .bind_any fun _ _ => .bind_any fun _ _ => .assert_bind fun _ => ?_
  refine (h.batchUpdate schedule fun _ => ?_).bind fun _ h₁ => (h₁.setNewL2Addr _ _).bind fun _ h₂ =>
    .pure h₂
  simpa [AccountUpdates.InRange] using htoken

theorem withdraw (h : s.Intact) (tx : WithdrawTx) :
    Ensures (fun r => r.2.Intact) (s.withdraw tx offset) :=
  .bind_any fun _ _ => (h.setTokenBalance _ _ _).bind fun _ h₁ => (h₁.increaseNonce _).bind fun _ h₂ =>
    .pure h₂

theorem placeOrders (h : s.Intact) (tx : FullSpotTradeTx) :
    Ensures (fun r => r.2.Intact) (s.placeOrders tx) :=
  .bind_any fun _ _ => .bind_any fun _ _ => (h.findOrInsertOrder _ _).bind fun _ h₁ =>
    (h₁.findOrInsertOrder _ _).bind fun _ h₂ => .pure h₂

/-- A trade runs a batch in parallel: both tokens must have a leaf. -/
theorem fullSpotTrade (h : s.Intact) (schedule : Shuffle Task) {tx : FullSpotTradeTx}
    (h1 : tx.trade.tokenId1to2 < 2 ^ lv.balanceLevels)
    (h2 : tx.trade.tokenId2to1 < 2 ^ lv.balanceLevels) :
    Ensures (fun r => r.2.Intact) (s.fullSpotTrade schedule tx offset) := by
  refine .assert_bind fun _ => .assert_bind fun _ => .assert_bind fun _ => ?_
  refine (h.placeOrders tx).bind fun _ h₁ => .bind_any fun _ _ => .assert_bind fun _ => ?_
  refine .bind_any fun _ _ => .bind_any fun _ _ => .assert_bind fun _ => .bind_any fun _ _ => ?_
  refine .bind_any fun _ _ => .bind_any fun _ _ => ?_
  refine (h₁.updateOrderState _ _ _).bind fun _ h₂ => (h₂.updateOrderState _ _ _).bind fun _ h₃ => ?_
  refine (h₃.batchUpdate schedule fun _ => ?_).bind fun _ h₄ => ?_
  · simp only [AccountUpdates.InRange, List.forall_mem_cons, h1, h2, true_and]
    exact ⟨List.forall_mem_nil _, List.forall_mem_nil _, List.forall_mem_nil _⟩
  · exact .bind_any fun _ _ => .bind_any fun _ _ => .pure h₄

end GlobalState.Intact

/-! ## Runs -/

/-- A call of a function that changes the state: an operation of the manager, or one of the
    functions that it does not offer. -/
inductive GlobalState.Call where
  | op (op : Op)
  | flushAccountState (accountId : ℕ)
  | setAccountOrderRoot (accountId : ℕ) (orderRoot : Fr)
  | increaseNonce (accountId : ℕ)
  | updateOrderState (accountId orderPos : ℕ) (order : Order)
  | findOrInsertOrder (accountId : ℕ) (order : Order)
  | setOrderLeafHash (accountId orderPos : ℕ) (orderHash : Fr)
  | setOrderLeafHashRaw (accountId orderPos : ℕ) (orderHash : Fr)
  | setTokenBalanceRaw (accountId tokenId : ℕ) (balance : Fr)
  | batchUpdate (schedule : Shuffle Task) (updates : List AccountUpdates) (parallel : Bool)

/-- The tokens of the batches whose trees are updated in parallel have leaves. -/
def GlobalState.Call.Checked (lv : Levels) : GlobalState.Call → Prop
  | .op (.transfer _ tx _) => tx.tokenId < 2 ^ lv.balanceLevels
  | .op (.fullSpotTrade _ tx _) =>
    tx.trade.tokenId1to2 < 2 ^ lv.balanceLevels ∧ tx.trade.tokenId2to1 < 2 ^ lv.balanceLevels
  | .batchUpdate _ updates parallel => parallel = true → ∀ update ∈ updates, update.InRange lv
  | _ => True

namespace GlobalState

/-- What is left of the state by a call, whatever it returns. -/
def call (s : GlobalState lv) : Call → Except Panic (GlobalState lv)
  | .op op => do
    let (_, s) ← s.apply op
    pure s
  | .flushAccountState accountId => s.flushAccountState accountId
  | .setAccountOrderRoot accountId orderRoot => s.setAccountOrderRoot accountId orderRoot
  | .increaseNonce accountId => s.increaseNonce accountId
  | .updateOrderState accountId orderPos order => s.updateOrderState accountId orderPos order
  | .findOrInsertOrder accountId order => do
    let (_, s) ← s.findOrInsertOrder accountId order
    pure s
  | .setOrderLeafHash accountId orderPos hash => s.setOrderLeafHash accountId orderPos hash
  | .setOrderLeafHashRaw accountId orderPos hash => s.setOrderLeafHashRaw accountId orderPos hash
  | .setTokenBalanceRaw accountId tokenId balance => s.setTokenBalanceRaw accountId tokenId balance
  | .batchUpdate schedule updates parallel => s.batchUpdate schedule updates parallel

namespace Intact

/-- One operation of the manager. -/
theorem apply (h : s.Intact) {op : Op} (hop : (Call.op op).Checked lv) :
    Ensures (fun r => r.2.Intact) (s.apply op) := by
  cases op with
  | createNewAccount n => exact (h.createNewAccount n).bind fun _ h₁ => .pure h₁
  | setAccountL2Addr a sign ay => exact (h.setAccountL2Addr a sign ay).bind fun _ h₁ => .pure h₁
  | setAccountNonce a nonce => exact (h.setAccountNonce a nonce).bind fun _ h₁ => .pure h₁
  | setAccountOrder a pos order => exact (h.setAccountOrder a pos order).bind fun _ h₁ => .pure h₁
  | setTokenBalance a token v => exact (h.setTokenBalance a token v).bind fun _ h₁ => .pure h₁
  | keyUpdate tx offset => exact (h.keyUpdate tx).bind fun _ h₁ => .pure h₁
  | deposit tx offset => exact (h.deposit tx).bind fun _ h₁ => .pure h₁
  | transfer schedule tx offset => exact (h.transfer schedule hop).bind fun _ h₁ => .pure h₁
  | withdraw tx offset => exact (h.withdraw tx).bind fun _ h₁ => .pure h₁
  | fullSpotTrade schedule tx offset =>
    exact (h.fullSpotTrade schedule hop.1 hop.2).bind fun _ h₁ => .pure h₁
  | cancelOrder a orderId => exact (h.cancelOrder a orderId).bind fun _ h₁ => .pure h₁
  | nop | flushWithNop | popAllBlocks => exact .pure h

/-- One call of any public function. -/
theorem call (h : s.Intact) {c : Call} (hc : c.Checked lv) : Ensures Intact (s.call c) := by
  cases c with
  | op op => exact (h.apply hc).bind fun _ h₁ => .pure h₁
  | flushAccountState a => exact h.flushAccountState a
  | setAccountOrderRoot a orderRoot => exact h.setAccountOrderRoot a orderRoot
  | increaseNonce a => exact h.increaseNonce a
  | updateOrderState a pos order => exact h.updateOrderState a pos order
  | findOrInsertOrder a order => exact (h.findOrInsertOrder a order).bind fun _ h₁ => .pure h₁
  | setOrderLeafHash a pos hash => exact h.setOrderLeafHash a pos hash
  | setOrderLeafHashRaw a pos hash => exact h.setOrderLeafHashRaw a pos hash
  | setTokenBalanceRaw a token balance => exact h.setTokenBalanceRaw a token balance
  | batchUpdate schedule updates parallel => exact h.batchUpdate schedule hc

end Intact

/-- The states reached by calls that only write leaves by chunks in range are intact. -/
theorem intact_of_checked
    (hs : Exec.Reachable call (fun _ c => c.Checked lv) (GlobalState.new lv) s) : s.Intact :=
  hs.ensures (intact_new lv) fun _ _ h hc => h.call hc

end GlobalState

end Intact

end Rollup
