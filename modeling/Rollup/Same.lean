import Rollup.Lib.Maps
import Rollup.Lib.Related
import Rollup.Manager

/-!
# States that are the same

The maps of two states may be stored in different orders, which nothing depends on: the
states are then the *same* (`GlobalState.Same`). From states that are the same, what is
read is equal, and every function of the global state and of the manager stops on both, or
returns equal values and leads to states that are the same again.

This holds whatever the schedules of the parallel tasks of a batch, as long as the accounts
of the batch are different: the tasks are then those of different trees, and commute
(`runTask_comm`).
-/

namespace Rollup

section Same

variable [FluidexCommon] {lv : Levels} {s s' : GlobalState lv}

open Exec (Related)

/-- The states only differ by the order in which their maps are stored. -/
structure GlobalState.Same (s s' : GlobalState lv) : Prop where
  accountTree : s.accountTree = s'.accountTree
  accountStates : Maps.Same s.accountStates s'.accountStates
  balanceTrees : Maps.Same s.balanceTrees s'.balanceTrees
  orderTrees : Maps.Same s.orderTrees s'.orderTrees
  orderStates : Maps.SameNested s.orderStates s'.orderStates
  orderIdToPos : Maps.Same s.orderIdToPos s'.orderIdToPos
  nextOrderPositions : Maps.Same s.nextOrderPositions s'.nextOrderPositions

/-- Equal values, and states that are the same. -/
def SameReturn {α : Type} (r r' : α × GlobalState lv) : Prop := r.1 = r'.1 ∧ r.2.Same r'.2

namespace GlobalState.Same

omit [FluidexCommon] in
/-- A state is the same as itself. -/
theorem refl (s : GlobalState lv) : s.Same s where
  accountTree := rfl
  accountStates := .refl _
  balanceTrees := .refl _
  orderTrees := .refl _
  orderStates := .refl _
  orderIdToPos := .refl _
  nextOrderPositions := .refl _

omit [FluidexCommon] in
/-- Being the same is passed on. -/
theorem trans {s'' : GlobalState lv} (h : s.Same s') (h' : s'.Same s'') : s.Same s'' where
  accountTree := h.accountTree.trans h'.accountTree
  accountStates := h.accountStates.trans h'.accountStates
  balanceTrees := h.balanceTrees.trans h'.balanceTrees
  orderTrees := h.orderTrees.trans h'.orderTrees
  orderStates := h.orderStates.trans h'.orderStates
  orderIdToPos := h.orderIdToPos.trans h'.orderIdToPos
  nextOrderPositions := h.nextOrderPositions.trans h'.nextOrderPositions

/-! ## Reading -/

section Reading

variable (h : s.Same s') (a : ℕ)
include h

omit [FluidexCommon] in
theorem root_eq : s.root = s'.root := congrArg Tree.getRoot h.accountTree

/-- What is read of an account does not depend on the order in which the maps are stored. -/
theorem getAccount_eq : s.getAccount a = s'.getAccount a := by
  rw [getAccount, getAccount, h.accountStates a]

theorem hasAccount_iff : s.hasAccount a ↔ s'.hasAccount a := by
  rw [hasAccount, hasAccount, h.getAccount_eq]

theorem getTokenBalance_eq (token : ℕ) : s.getTokenBalance a token = s'.getTokenBalance a token := by
  rw [getTokenBalance]
  rw [h.balanceTrees a]
  exact if_congr (not_congr (h.hasAccount_iff a)) rfl rfl

omit [FluidexCommon] in
theorem hasOrder_iff (orderId : ℕ) : s.hasOrder a orderId ↔ s'.hasOrder a orderId :=
  h.orderIdToPos.mem_iff

omit [FluidexCommon] in
theorem getOrderPosById_eq (orderId : ℕ) : s.getOrderPosById a orderId = s'.getOrderPosById a orderId :=
  h.orderIdToPos _

omit [FluidexCommon] in
theorem getAccountOrderByPos_eq (pos : ℕ) :
    s.getAccountOrderByPos a pos = s'.getAccountOrderByPos a pos := by
  have ha := h.orderStates a
  rw [getAccountOrderByPos, getAccountOrderByPos]
  generalize s.orderStates.lookup a = orders at ha ⊢
  generalize s'.orderStates.lookup a = orders' at ha ⊢
  cases ha with
  | some hab =>
    rw [unwrap, unwrap, Exec.unwrap_some, Exec.unwrap_some, Exec.ok_bind, Exec.ok_bind, hab pos]
  | none => rfl

omit [FluidexCommon] in
theorem getAccountOrderById_eq (orderId : ℕ) :
    s.getAccountOrderById a orderId = s'.getAccountOrderById a orderId := by
  rw [getAccountOrderById, getAccountOrderById]
  simp only [h.getOrderPosById_eq, h.getAccountOrderByPos_eq, h.hasOrder_iff]

omit [FluidexCommon] in
theorem orderProof_eq (pos : ℕ) : s.orderProof a pos = s'.orderProof a pos := by
  rw [orderProof, orderProof, h.orderTrees a]

/-- The opening of a balance is the same in both states. -/
theorem balanceProof_eq (token : ℕ) : s.balanceProof a token = s'.balanceProof a token := by
  rw [balanceProof, balanceProof, h.balanceTrees a]

omit [FluidexCommon] in
theorem accountProof_eq : s.accountProof a = s'.accountProof a := by
  rw [accountProof, accountProof, h.accountTree]

theorem balanceFullProof_eq (token : ℕ) : s.balanceFullProof a token = s'.balanceFullProof a token := by
  rw [balanceFullProof, balanceFullProof, h.balanceProof_eq, h.accountProof_eq]

end Reading

theorem nopTx_eq (h : s.Same s') : s.nopTx = s'.nopTx := by
  rw [nopTx, nopTx, h.root_eq, trivialStateProof, trivialStateProof, h.balanceFullProof_eq]

/-! ## Accounts -/

/-- The hash is the same, and so is the state that is left. -/
theorem recalculateAccountStateHash (h : s.Same s') (a : ℕ) :
    Related SameReturn (s.recalculateAccountStateHash a) (s'.recalculateAccountStateHash a) := by
  rw [GlobalState.recalculateAccountStateHash]
  rw [h.accountStates a, h.balanceTrees a, h.orderTrees a]
  refine .bind_self fun acc _ => .bind_self fun bt _ => .bind_self fun ot _ => ?_
  exact .pure_pure ⟨rfl, { h with accountStates := h.accountStates.insert _ _ }⟩

/-- Both panic, or the account trees are equal afterwards. -/
theorem flushAccountState (h : s.Same s') (a : ℕ) :
    Related Same (s.flushAccountState a) (s'.flushAccountState a) := by
  refine (h.recalculateAccountStateHash a).bind ?_
  rintro ⟨hash, s₁⟩ ⟨_, s₁'⟩ ⟨rfl, h₁⟩
  dsimp only
  rw [h₁.accountTree]
  exact .bind_self fun t _ => .pure_pure { h₁ with accountTree := rfl }

theorem setAccountL2Addr (h : s.Same s') (a : ℕ) (sign ay : Fr) :
    Related Same (s.setAccountL2Addr a sign ay) (s'.setAccountL2Addr a sign ay) := by
  rw [GlobalState.setAccountL2Addr]
  rw [h.accountStates a, h.accountTree]
  refine .bind_self fun acc _ => .bind_self fun t _ => .pure_pure ?_
  exact { h with accountTree := rfl, accountStates := h.accountStates.insert _ _ }

theorem setNewL2Addr (h : s.Same s') (a : ℕ) (l2key : Option L2Key) :
    Related Same (s.setNewL2Addr a l2key) (s'.setNewL2Addr a l2key) := by
  cases l2key with
  | some l2key => exact h.setAccountL2Addr a _ _
  | none => exact .pure_pure h

omit [FluidexCommon] in
theorem updateNonce (h : s.Same s') (a : ℕ) (nonce : Fr) :
    Related Same (s.updateNonce a nonce) (s'.updateNonce a nonce) := by
  rw [GlobalState.updateNonce]
  rw [h.accountStates a]
  refine .bind_self fun acc _ => .pure_pure ?_
  exact { h with accountStates := h.accountStates.insert _ _ }

omit [FluidexCommon] in
theorem updateNewNonce (h : s.Same s') (a : ℕ) (nonce : Option Fr) :
    Related Same (s.updateNewNonce a nonce) (s'.updateNewNonce a nonce) := by
  cases nonce with
  | some nonce => exact h.updateNonce a nonce
  | none => exact .pure_pure h

theorem increaseNonce (h : s.Same s') (a : ℕ) :
    Related Same (s.increaseNonce a) (s'.increaseNonce a) := by
  rw [GlobalState.increaseNonce]
  rw [h.accountStates a]
  refine .bind_self fun acc _ => ?_
  exact (h.updateNonce a _).bind fun _ _ h₁ => h₁.flushAccountState a

/-- Whether the account exists already does not depend on the order of the maps. -/
theorem initAccount (h : s.Same s') (a nextOrderId : ℕ) :
    Related SameReturn (s.initAccount a nextOrderId) (s'.initAccount a nextOrderId) := by
  rw [GlobalState.initAccount]
  refine .ite h.accountStates.mem_iff (fun _ => .pure_pure ⟨rfl, h⟩) fun _ => ?_
  refine .ite Iff.rfl (fun _ => .pure_pure ⟨rfl, h⟩) fun _ => ?_
  rw [h.accountTree]
  refine .bind_self fun t _ => .pure_pure ⟨rfl, ?_⟩
  exact {
    accountTree := rfl
    accountStates := h.accountStates.insert _ _
    balanceTrees := h.balanceTrees.insert _ _
    orderTrees := h.orderTrees.insert _ _
    orderStates := h.orderStates.insert _ (.refl _)
    orderIdToPos := h.orderIdToPos
    nextOrderPositions := h.nextOrderPositions.insert _ _ }

theorem ensureAccount (h : s.Same s') (a : ℕ) :
    Related Same (s.ensureAccount a) (s'.ensureAccount a) := by
  rw [GlobalState.ensureAccount]
  refine .ite h.accountStates.mem_iff (fun _ => .pure_pure h) fun _ => ?_
  refine (h.initAccount a _).bind ?_
  rintro ⟨result, s₁⟩ ⟨_, s₁'⟩ ⟨rfl, h₁⟩
  exact .bind_self fun _ _ => .pure_pure h₁

/-! ## Balances -/

theorem setTokenBalanceRaw (h : s.Same s') (a token : ℕ) (balance : Fr) :
    Related Same (s.setTokenBalanceRaw a token balance) (s'.setTokenBalanceRaw a token balance) := by
  rw [GlobalState.setTokenBalanceRaw]
  refine .assert_bind h.balanceTrees.mem_iff fun _ => ?_
  rw [h.balanceTrees a]
  refine .bind_self fun t _ => .bind_self fun t' _ => .pure_pure ?_
  exact { h with balanceTrees := h.balanceTrees.insert _ _ }

theorem setTokenBalance (h : s.Same s') (a token : ℕ) (balance : Fr) :
    Related Same (s.setTokenBalance a token balance) (s'.setTokenBalance a token balance) :=
  (h.ensureAccount a).bind fun _ _ h₁ => (h₁.setTokenBalanceRaw a token balance).bind fun _ _ h₂ =>
    h₂.flushAccountState a

/-! ## Orders -/

omit [FluidexCommon] in
/-- The slots are tried in the order of the list, which both searches share. -/
theorem replaceClosedOrder (h : s.Same s') (a orderId startPos : ℕ) (is : List ℕ) :
    Related SameReturn (s.replaceClosedOrder a orderId startPos is)
      (s'.replaceClosedOrder a orderId startPos is) := by
  induction is with
  | nil => exact .error
  | cons i is ih =>
    rw [GlobalState.replaceClosedOrder, GlobalState.replaceClosedOrder,
      h.getAccountOrderByPos_eq]
    refine .bind_self fun order _ => .assert_bind Iff.rfl fun _ => ?_
    refine .ite Iff.rfl (fun _ => .assert_bind Iff.rfl fun _ => ?_) fun _ => ih
    refine .ite Iff.rfl (fun _ => .pure_pure ⟨rfl, ?_⟩) fun _ => ih
    exact { h with nextOrderPositions := h.nextOrderPositions.insert _ _ }

/-- The number of the orders and the greatest position are those of the same map. -/
theorem getNextOrderPosForUser (h : s.Same s') (a orderId : ℕ) :
    Related SameReturn (s.getNextOrderPosForUser a orderId) (s'.getNextOrderPosForUser a orderId) := by
  refine (Related.unwrap (h.orderStates a)).bind fun orders orders' hab => ?_
  dsimp only
  rw [hab.keys_perm.length_eq, hab.max?_keys, h.nextOrderPositions a]
  refine .assert_bind Iff.rfl fun _ => .ite Iff.rfl (fun _ => ?_) fun _ => ?_
  · refine .assert_bind (or_congr ?_ Iff.rfl) fun _ => .pure_pure ⟨rfl, h⟩
    exact List.length_eq_zero_iff.symm.trans
      (hab.keys_perm.length_eq ▸ List.length_eq_zero_iff)
  · exact .bind_self fun startPos _ => h.replaceClosedOrder a orderId startPos _

omit [FluidexCommon] in
theorem setOrderPosForId (h : s.Same s') (a pos orderId : ℕ) :
    Related Same (s.setOrderPosForId a pos orderId) (s'.setOrderPosForId a pos orderId) := by
  refine .assert_bind h.orderTrees.mem_iff fun _ => .ite Iff.rfl (fun _ => .error) fun _ => ?_
  exact .pure_pure { h with orderIdToPos := h.orderIdToPos.insert _ _ }

/-- The order gets the same slot, and finds the same order there. -/
theorem findOrInsertOrder (h : s.Same s') (a : ℕ) (order : Order) :
    Related SameReturn (s.findOrInsertOrder a order) (s'.findOrInsertOrder a order) := by
  rw [GlobalState.findOrInsertOrder, GlobalState.findOrInsertOrder]
  rw [h.getOrderPosById_eq]
  cases s'.getOrderPosById a order.orderId with
  | some pos =>
    dsimp only
    rw [h.getAccountOrderByPos_eq]
    exact .bind_self fun old _ => .pure_pure ⟨rfl, h⟩
  | none =>
    refine (h.getNextOrderPosForUser a order.orderId).bind ?_
    rintro ⟨pos, s₁⟩ ⟨_, s₁'⟩ ⟨rfl, h₁⟩
    dsimp only
    rw [h₁.getAccountOrderByPos_eq]
    refine .bind_self fun old _ => (h₁.setOrderPosForId a pos order.orderId).bind fun s₂ s₂' h₂ => ?_
    exact .pure_pure ⟨rfl, h₂⟩

omit [FluidexCommon] in
theorem updateOrderState (h : s.Same s') (a pos : ℕ) (order : Order) :
    Related Same (s.updateOrderState a pos order) (s'.updateOrderState a pos order) := by
  refine (Related.unwrap (h.orderStates a)).bind fun orders orders' hab => .pure_pure ?_
  exact { h with orderStates := h.orderStates.insert _ (hab.insert _ _) }

omit [FluidexCommon] in
theorem cancelOrder (h : s.Same s') (a orderId : ℕ) :
    Related Same (s.cancelOrder a orderId) (s'.cancelOrder a orderId) := by
  rw [GlobalState.cancelOrder]
  rw [h.getOrderPosById_eq]
  refine .bind_self fun pos _ => (Related.unwrap (h.orderStates a)).bind fun orders orders' hab => ?_
  rw [hab pos]
  exact .bind_self fun order _ => h.updateOrderState a pos _

end GlobalState.Same

/-! ## Batches -/

/-- The tree that a task updates. -/
def Task.tree : Task → ℕ × Bool
  | .balance a _ _ => (a, true)
  | .order a _ _ => (a, false)

namespace GlobalState

/-- The tree with the updates of a task. -/
def updatedTree {h : ℕ} (tree : Option (Tree h)) (updates : List (ℕ × Fr)) (parallel : ℕ) :
    Except Panic (Tree h) := do
  let tree ← unwrap tree
  tree.setValueParallel updates parallel

/-- A task on balances only needs the tree of its account. -/
theorem runTask_balance (s : GlobalState lv) (a : ℕ) (updates : List (ℕ × Fr)) (parallel : ℕ) :
    s.runTask (.balance a updates parallel) =
      updatedTree (s.balanceTrees.lookup a) updates parallel >>= fun tree =>
        pure { s with balanceTrees := s.balanceTrees.insert a tree } :=
  (bind_assoc _ _ _).symm

/-- A task on orders only needs the tree of its account. -/
theorem runTask_order (s : GlobalState lv) (a : ℕ) (updates : List (ℕ × Fr)) (parallel : ℕ) :
    s.runTask (.order a updates parallel) =
      updatedTree (s.orderTrees.lookup a) updates parallel >>= fun tree =>
        pure { s with orderTrees := s.orderTrees.insert a tree } :=
  (bind_assoc _ _ _).symm

/-- Tasks on different trees commute. -/
theorem runTask_comm (s : GlobalState lv) {t t' : Task} (hne : t.tree ≠ t'.tree) :
    Related Same (s.runTask t >>= fun s => s.runTask t') (s.runTask t' >>= fun s => s.runTask t) := by
  cases t with
  | balance a updates parallel =>
    cases t' with
    | balance b updates' parallel' =>
      -- Two trees of the same kind are those of two accounts.
      have hab : a ≠ b := fun hab => hne (congrArg (·, true) hab)
      simp only [runTask_balance, bind_assoc, pure_bind, AList.lookup_insert_ne hab,
        AList.lookup_insert_ne hab.symm]
      refine .bind_comm _ _ fun tree tree' => ?_
      exact { Same.refl s with balanceTrees := .insert_comm hab _ _ _ }
    | order b updates' parallel' =>
      -- A tree of balances and one of orders are in different maps.
      simp only [runTask_balance, runTask_order, bind_assoc, pure_bind]
      exact .bind_comm _ _ fun tree tree' => .refl _
  | order a updates parallel =>
    cases t' with
    | balance b updates' parallel' =>
      simp only [runTask_balance, runTask_order, bind_assoc, pure_bind]
      exact .bind_comm _ _ fun tree tree' => .refl _
    | order b updates' parallel' =>
      have hab : a ≠ b := fun hab => hne (congrArg (·, false) hab)
      simp only [runTask_order, bind_assoc, pure_bind, AList.lookup_insert_ne hab,
        AList.lookup_insert_ne hab.symm]
      refine .bind_comm _ _ fun tree tree' => ?_
      exact { Same.refl s with orderTrees := .insert_comm hab _ _ _ }

namespace Same

/-- A task does the same to states that are the same. -/
theorem runTask (h : s.Same s') (t : Task) : Related Same (s.runTask t) (s'.runTask t) := by
  cases t with
  | balance a updates parallel =>
    rw [runTask_balance, runTask_balance, h.balanceTrees a]
    exact .bind_self fun tree _ => .pure_pure { h with balanceTrees := h.balanceTrees.insert _ _ }
  | order a updates parallel =>
    rw [runTask_order, runTask_order, h.orderTrees a]
    exact .bind_self fun tree _ => .pure_pure { h with orderTrees := h.orderTrees.insert _ _ }

/-- Tasks that are run in the same order do the same to states that are the same. -/
theorem runTasks (h : s.Same s') (tasks : List Task) :
    Related Same (s.runTasks tasks) (s'.runTasks tasks) := by
  induction tasks generalizing s s' with
  | nil => exact .pure_pure h
  | cons t tasks ih =>
    rw [GlobalState.runTasks, GlobalState.runTasks, List.foldlM_cons, List.foldlM_cons]
    exact (h.runTask t).bind fun _ _ h₁ => ih h₁

/-- Tasks on different trees can be run in any order. -/
theorem runTasks_perm (h : s.Same s') {tasks tasks' : List Task} (hp : tasks.Perm tasks')
    (hne : tasks.Pairwise fun t t' => t.tree ≠ t'.tree) :
    Related Same (s.runTasks tasks) (s'.runTasks tasks') := by
  induction hp generalizing s s' with
  | nil => exact .pure_pure h
  | cons t _ ih =>
    rw [GlobalState.runTasks, GlobalState.runTasks, List.foldlM_cons, List.foldlM_cons]
    exact (h.runTask t).bind fun _ _ h₁ => ih h₁ (List.pairwise_cons.1 hne).2
  | swap t t' tasks =>
    simp only [GlobalState.runTasks, List.foldlM_cons, ← bind_assoc]
    have hcomm := runTask_comm s ((List.pairwise_cons.1 hne).1 t List.mem_cons_self)
    have hsame := (h.runTask t).bind fun _ _ h₁ => h₁.runTask t'
    exact (hcomm.trans hsame fun _ _ _ => trans).bind fun _ _ h₂ => h₂.runTasks tasks
  | trans hp _ ih ih' =>
    have hne' := (hp.pairwise_iff Ne.symm).1 hne
    exact (ih (refl s) hne).trans (ih' h hne') fun _ _ _ => trans

omit [FluidexCommon] in
theorem checkTrees (h : s.Same s') (updates : List AccountUpdates) :
    Related (fun _ _ => True) (s.checkTrees updates) (s'.checkTrees updates) := by
  induction updates with
  | nil => exact .pure_pure trivial
  | cons update updates ih =>
    exact .assert_bind h.balanceTrees.mem_iff fun _ => .assert_bind h.orderTrees.mem_iff fun _ => ih

/-- The hashes for the account tree are equal. -/
theorem updateAccountStates (h : s.Same s') (updates : List AccountUpdates) :
    Related SameReturn (s.updateAccountStates updates) (s'.updateAccountStates updates) := by
  induction updates generalizing s s' with
  | nil => exact .pure_pure ⟨rfl, h⟩
  | cons update updates ih =>
    refine (h.updateNewNonce _ _).bind fun s₁ s₁' h₁ => (h₁.recalculateAccountStateHash _).bind ?_
    rintro ⟨hash, s₂⟩ ⟨_, s₂'⟩ ⟨rfl, h₂⟩
    refine (ih h₂).bind ?_
    rintro ⟨hashes, s₃⟩ ⟨_, s₃'⟩ ⟨rfl, h₃⟩
    exact .pure_pure ⟨rfl, h₃⟩

end Same

omit [FluidexCommon] in
/-- The tasks of different accounts are those of different trees. -/
theorem pairwise_tasks {updates : List AccountUpdates}
    (hnd : (updates.map AccountUpdates.accountId).Nodup) :
    (updates.flatMap AccountUpdates.tasks).Pairwise fun t t' => t.tree ≠ t'.tree := by
  rw [List.pairwise_flatMap]
  refine ⟨fun update _ => by simp [AccountUpdates.tasks, Task.tree], ?_⟩
  refine (List.pairwise_map.1 hnd).imp fun hne t ht t' ht' heq => hne ?_
  have hid : ∀ update : AccountUpdates, ∀ t ∈ update.tasks, t.tree.1 = update.accountId := by
    simp [AccountUpdates.tasks, Task.tree]
  rw [← hid _ t ht, ← hid _ t' ht', heq]

/-- The schedule only matters if an account is updated twice. -/
theorem Same.batchUpdate (h : s.Same s') {schedule schedule' : Shuffle Task}
    {updates : List AccountUpdates}
    (hs : schedule = schedule' ∨ (updates.map AccountUpdates.accountId).Nodup) :
    Related Same (s.batchUpdate schedule updates true) (s'.batchUpdate schedule' updates true) := by
  have htasks : Related Same
      (s.runTasks (schedule.order (updates.flatMap AccountUpdates.tasks)))
      (s'.runTasks (schedule'.order (updates.flatMap AccountUpdates.tasks))) := by
    rcases hs with rfl | hnd
    · exact h.runTasks _
    · refine h.runTasks_perm ((schedule.perm _).trans (schedule'.perm _).symm) ?_
      exact ((schedule.perm _).pairwise_iff Ne.symm).2 (pairwise_tasks hnd)
  rw [GlobalState.batchUpdate, GlobalState.batchUpdate, if_pos rfl, if_pos rfl]
  refine (h.checkTrees updates).bind fun _ _ _ => htasks.bind fun s₁ s₁' h₁ => ?_
  refine (h₁.updateAccountStates updates).bind ?_
  rintro ⟨hashes, s₂⟩ ⟨_, s₂'⟩ ⟨rfl, h₂⟩
  dsimp only
  rw [h₂.accountTree]
  exact .bind_self fun t _ => .pure_pure { h₂ with accountTree := rfl }

/-! ## Transactions -/

namespace Same

variable {offset : Option ℤ}

/-- The same raw transaction is emitted, or the same error returned. -/
theorem keyUpdate (h : s.Same s') (tx : UpdateKeyTx) :
    Related SameReturn (s.keyUpdate tx offset) (s'.keyUpdate tx offset) := by
  rw [GlobalState.keyUpdate]
  refine .ite (h.hasAccount_iff _) (fun _ => .pure_pure ⟨rfl, h⟩) fun _ => ?_
  dsimp only
  rw [h.getTokenBalance_eq, h.balanceFullProof_eq, h.getAccount_eq]
  refine .bind_self fun balance _ => (h.setTokenBalance _ _ _).bind fun s₁ s₁' h₁ => ?_
  refine (h₁.setAccountL2Addr _ _ _).bind fun s₂ s₂' h₂ => .pure_pure ⟨?_, h₂⟩
  dsimp only
  rw [h₂.root_eq]

theorem deposit (h : s.Same s') (tx : DepositTx) :
    Related SameReturn (s.deposit tx offset) (s'.deposit tx offset) := by
  rw [GlobalState.deposit]
  have hacc := h.hasAccount_iff tx.accountId
  refine .ite (and_congr_right fun _ => hacc) (fun _ => .pure_pure ⟨rfl, h⟩) fun _ => ?_
  refine .ite (and_congr_right fun _ => not_congr hacc) (fun _ => .pure_pure ⟨rfl, h⟩) fun _ => ?_
  dsimp only
  rw [h.getTokenBalance_eq, h.balanceFullProof_eq, h.getAccount_eq]
  refine .bind_self fun balance _ => (h.setTokenBalance _ _ _).bind fun s₁ s₁' h₁ => ?_
  refine (h₁.setNewL2Addr _ _).bind fun s₂ s₂' h₂ => .pure_pure ⟨?_, h₂⟩
  dsimp only
  rw [h₂.root_eq]

/-- The schedule only matters if the sender is the receiver. -/
theorem transfer (h : s.Same s') {schedule schedule' : Shuffle Task} {tx : TransferTx}
    (hs : schedule = schedule' ∨ tx.fromId ≠ tx.toId) :
    Related SameReturn (s.transfer schedule tx offset) (s'.transfer schedule' tx offset) := by
  refine .assert_bind (h.hasAccount_iff _) fun _ => ?_
  dsimp only
  rw [h.getTokenBalance_eq, h.getTokenBalance_eq, h.balanceFullProof_eq, h.getAccount_eq,
    h.getAccount_eq, getAccountNonce, getAccountNonce, h.getAccount_eq]
  refine .bind_self fun fromBalance _ => .bind_self fun toBalance _ => ?_
  refine .assert_bind Iff.rfl fun _ => (h.batchUpdate ?_).bind fun s₁ s₁' h₁ => ?_
  · exact hs.imp_right fun hne => by simpa using hne
  rw [h₁.balanceFullProof_eq]
  refine (h₁.setNewL2Addr _ _).bind fun s₂ s₂' h₂ => .pure_pure ⟨?_, h₂⟩
  dsimp only
  rw [h₂.root_eq]

theorem withdraw (h : s.Same s') (tx : WithdrawTx) :
    Related SameReturn (s.withdraw tx offset) (s'.withdraw tx offset) := by
  rw [GlobalState.withdraw]
  dsimp only
  rw [h.getTokenBalance_eq, h.balanceFullProof_eq, h.getAccount_eq]
  refine .bind_self fun balance _ => (h.setTokenBalance _ _ _).bind fun s₁ s₁' h₁ => ?_
  refine (h₁.increaseNonce _).bind fun s₂ s₂' h₂ => .pure_pure ⟨?_, h₂⟩
  dsimp only
  rw [h₂.root_eq]

omit [FluidexCommon] in
theorem takeOrder (h : s.Same s') (supplied : Option Order) (a orderId : ℕ) (name : String) :
    Related Eq (s.takeOrder supplied a orderId name) (s'.takeOrder supplied a orderId name) := by
  cases supplied with
  | some order =>
    refine .assert_bind (not_congr (h.hasOrder_iff _ _)) fun _ => ?_
    exact .refl (fun _ => rfl) _
  | none =>
    refine .assert_bind (h.hasOrder_iff _ _) fun _ => ?_
    rw [h.getAccountOrderById_eq]
    exact .refl (fun _ => rfl) _

/-- Both orders get the same slots. -/
theorem placeOrders (h : s.Same s') (tx : FullSpotTradeTx) :
    Related SameReturn (s.placeOrders tx) (s'.placeOrders tx) := by
  refine (h.takeOrder _ _ _ _).bind fun order1 _ heq1 => ?_
  refine (h.takeOrder _ _ _ _).bind fun order2 _ heq2 => ?_
  subst heq1 heq2
  refine (h.findOrInsertOrder _ _).bind ?_
  rintro ⟨⟨pos1, old1⟩, s₁⟩ ⟨⟨_, _⟩, s₁'⟩ ⟨heq, h₁⟩
  obtain ⟨rfl, rfl⟩ := Prod.mk.inj heq
  refine (h₁.findOrInsertOrder _ _).bind ?_
  rintro ⟨⟨pos2, old2⟩, s₂⟩ ⟨⟨_, _⟩, s₂'⟩ ⟨heq, h₂⟩
  obtain ⟨rfl, rfl⟩ := Prod.mk.inj heq
  exact .pure_pure ⟨rfl, h₂⟩

/-- The schedules need not be equal, as the two accounts are different. -/
theorem fullSpotTrade (h : s.Same s') (schedule schedule' : Shuffle Task) (tx : FullSpotTradeTx) :
    Related SameReturn (s.fullSpotTrade schedule tx offset)
      (s'.fullSpotTrade schedule' tx offset) := by
  refine .assert_bind Iff.rfl fun hne => .assert_bind (h.hasAccount_iff _) fun _ => ?_
  refine .assert_bind (h.hasAccount_iff _) fun _ => ?_
  dsimp only
  rw [h.root_eq, h.balanceFullProof_eq, h.balanceFullProof_eq, h.getAccount_eq, h.getAccount_eq]
  refine (h.placeOrders tx).bind ?_
  rintro ⟨⟨placed1, placed2⟩, s₁⟩ ⟨⟨_, _⟩, s₁'⟩ ⟨heq, h₁⟩
  obtain ⟨rfl, rfl⟩ := Prod.mk.inj heq
  dsimp only
  simp only [h₁.getTokenBalance_eq, h₁.orderProof_eq]
  refine .bind_self fun acc1Sell _ => .assert_bind Iff.rfl fun _ => .bind_self fun acc1Buy _ => ?_
  refine .bind_self fun acc2Sell _ => .assert_bind Iff.rfl fun _ => .bind_self fun acc2Buy _ => ?_
  refine .bind_self fun proof1 _ => .bind_self fun proof2 _ => ?_
  refine (h₁.updateOrderState _ _ _).bind fun s₂ s₂' h₂ => ?_
  refine (h₂.updateOrderState _ _ _).bind fun s₃ s₃' h₃ => ?_
  refine (h₃.batchUpdate (.inr (by simpa using hne))).bind fun s₄ s₄' h₄ => ?_
  refine .bind_self fun amounts1 _ => .bind_self fun amounts2 _ => .pure_pure ⟨?_, h₄⟩
  dsimp only
  rw [h₄.root_eq, h₄.balanceProof_eq, h₄.balanceProof_eq, h₄.getAccount_eq, h₄.accountProof_eq]

end Same

end GlobalState

end Same

end Rollup
