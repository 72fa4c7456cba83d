import Rollup.Tree
import Rollup.Types

/-!
# The global state

`state/global.rs`. Every account has a state, a tree of balances, a tree of
orders with the orders themselves, and a position from which to look for a slot
to reuse, each in a map of its own; the account tree commits to the states of
the accounts, which hold the roots of their trees.

* The functions take the state and return the new one, or stop with a `Panic`.
* The locks of the trees are not modelled: only the tasks of `batchUpdate` run in
  parallel, each of them locking one tree for its whole duration, so that they
  take effect one after the other, in some order (`Shuffle`).
* The levels are those for which no tree overflows (`Tree.new_eq`).
-/

namespace Rollup

/-- The heights of the trees. -/
structure Levels where
  balanceLevels : ℕ
  orderLevels : ℕ
  accountLevels : ℕ
  balance_lt : balanceLevels < 32
  order_lt : orderLevels < 32
  account_lt : accountLevels < 32

/-- The ids of the accounts that have a leaf are `u32`s. -/
theorem Levels.account_lt_u32 {lv : Levels} {a : ℕ} (ha : a < 2 ^ lv.accountLevels) : a < 2 ^ 32 :=
  ha.trans (Nat.pow_lt_pow_right one_lt_two lv.account_lt)

/-- Small levels, to run the model with. -/
def Levels.small : Levels := ⟨2, 1, 2, by decide, by decide, by decide⟩

/-- The proof of a balance, from the leaf to the root of the account tree. -/
structure BalanceProof where
  leaf : Fr
  balancePath : List Fr
  balanceRoot : Fr
  accountHash : Fr
  accountPath : List Fr
  root : Fr

/-- What one account changes in a batch: leaves of its two trees, and its nonce. -/
structure AccountUpdates where
  accountId : ℕ
  balanceUpdates : List (ℕ × Fr)
  orderUpdates : List (ℕ × Fr)
  newNonce : Option Fr

/-- A parallel task of `batchUpdate`: updating the leaves of a tree of an account. -/
inductive Task where
  | balance (accountId : ℕ) (updates : List (ℕ × Fr)) (parallel : ℕ)
  | order (accountId : ℕ) (updates : List (ℕ × Fr)) (parallel : ℕ)

/-- The trees of the account are updated by two tasks. -/
def AccountUpdates.tasks (update : AccountUpdates) : List Task :=
  [.balance update.accountId update.balanceUpdates 2, .order update.accountId update.orderUpdates 1]

/-- The maps of the state, from the account ids, and the tree committing to them. -/
structure GlobalState (lv : Levels) where
  /-- account id -> hash of its state -/
  accountTree : Tree lv.accountLevels
  accountStates : FnvHashMap ℕ AccountState
  /-- account id -> token id -> balance -/
  balanceTrees : FnvHashMap ℕ (Tree lv.balanceLevels)
  /-- account id -> order position -> hash of the order -/
  orderTrees : FnvHashMap ℕ (Tree lv.orderLevels)
  /-- account id -> order position -> order -/
  orderStates : FnvHashMap ℕ (BTreeMap ℕ Order)
  /-- (account id, order id) -> order position -/
  orderIdToPos : FnvHashMap (ℕ × ℕ) ℕ
  nextOrderPositions : FnvHashMap ℕ ℕ

variable [FluidexCommon]

/-! ## Default values -/

namespace Levels

variable (lv : Levels)

/-- The tree of a new account, where all balances are zero. -/
def emptyBalanceTree : Tree lv.balanceLevels := Tree.empty _ 0

/-- The root of the balances of a new account. -/
def defaultBalanceRoot : Fr := lv.emptyBalanceTree.getRoot

/-- The leaf of an empty slot. -/
def defaultOrderLeaf (_ : Levels) : Fr := Order.default.hash

/-- The tree of a new account, where all slots are empty. -/
def emptyOrderTree : Tree lv.orderLevels := Tree.empty _ lv.defaultOrderLeaf

/-- The root of the orders of a new account. -/
def defaultOrderRoot : Fr := lv.emptyOrderTree.getRoot

/-- The path of an order in an empty tree, for transactions without orders. -/
def trivialOrderPathElements : List Fr := (lv.emptyOrderTree.getProof 0).pathElements

/-- The state of a new account: no key, and empty trees. -/
def emptyAccount : AccountState := AccountState.empty lv.defaultBalanceRoot lv.defaultOrderRoot

/-- The leaf of a new account, and of one that does not exist. -/
def defaultAccountLeaf : Fr := lv.emptyAccount.hash

/-- The number of slots of an account. -/
def maxOrderNumPerUser : ℕ := lv.emptyOrderTree.maxLeafNum

/-- Where the search for a slot to reuse begins by default. -/
def defaultNextOrderId (_ : Levels) : ℕ := 1

end Levels

namespace GlobalState

variable {lv : Levels}

/-- The state without accounts. -/
def new (lv : Levels) : GlobalState lv where
  accountTree := Tree.empty _ lv.defaultAccountLeaf
  accountStates := ∅
  balanceTrees := ∅
  orderTrees := ∅
  orderStates := ∅
  orderIdToPos := ∅
  nextOrderPositions := ∅

/-- The commitment to the whole state. -/
def root (s : GlobalState lv) : Fr := s.accountTree.getRoot

/-! ## Accounts -/

/-- An account that does not exist is read as a new one. -/
def getAccount (s : GlobalState lv) (accountId : ℕ) : AccountState :=
  (s.accountStates.lookup accountId).getD lv.emptyAccount

/-- An account counts only once it has a key. -/
def hasAccount (s : GlobalState lv) (accountId : ℕ) : Prop := (s.getAccount accountId).ay ≠ 0

instance (s : GlobalState lv) (accountId : ℕ) : Decidable (s.hasAccount accountId) :=
  inferInstanceAs (Decidable (_ ≠ _))

/-- The nonce of an account, zero if it does not exist. -/
def getAccountNonce (s : GlobalState lv) (accountId : ℕ) : Fr := (s.getAccount accountId).nonce

/-- The roots in the state of the account are those of its trees at this moment. -/
def recalculateAccountStateHash (s : GlobalState lv) (accountId : ℕ) :
    Except Panic (Fr × GlobalState lv) := do
  let acc ← unwrap (s.accountStates.lookup accountId)
  let balanceTree ← unwrap (s.balanceTrees.lookup accountId)
  let orderTree ← unwrap (s.orderTrees.lookup accountId)
  let acc := { acc with balanceRoot := balanceTree.getRoot, orderRoot := orderTree.getRoot }
  pure (acc.hash, { s with accountStates := s.accountStates.insert accountId acc })

/-- Committing to the current state and trees of an account. -/
def flushAccountState (s : GlobalState lv) (accountId : ℕ) : Except Panic (GlobalState lv) := do
  let (hash, s) ← s.recalculateAccountStateHash accountId
  let accountTree ← s.accountTree.setValue accountId hash
  pure { s with accountTree := accountTree }

/-- The roots in the state of the account are not recomputed. -/
def setAccountL2Addr (s : GlobalState lv) (accountId : ℕ) (sign ay : Fr) :
    Except Panic (GlobalState lv) := do
  let account ← unwrap (s.accountStates.lookup accountId)
  let account := account.updateL2Addr sign ay
  let accountTree ← s.accountTree.setValue accountId account.hash
  pure { s with
    accountStates := s.accountStates.insert accountId account
    accountTree := accountTree }

/-- The leaf of the account is not updated. -/
def updateNonce (s : GlobalState lv) (accountId : ℕ) (nonce : Fr) :
    Except Panic (GlobalState lv) := do
  let account ← unwrap (s.accountStates.lookup accountId)
  pure { s with accountStates := s.accountStates.insert accountId (account.updateNonce nonce) }

/-- The nonce is kept if there is no new one. -/
def updateNewNonce (s : GlobalState lv) (accountId : ℕ) : Option Fr → Except Panic (GlobalState lv)
  | some nonce => s.updateNonce accountId nonce
  | none => pure s

/-- The leaf of the account is updated too. -/
def setAccountNonce (s : GlobalState lv) (accountId : ℕ) (nonce : Fr) :
    Except Panic (GlobalState lv) := do
  let s ← s.updateNonce accountId nonce
  s.flushAccountState accountId

/-- The root is recomputed from the order tree. -/
def setAccountOrderRoot (s : GlobalState lv) (accountId : ℕ) (orderRoot : Fr) :
    Except Panic (GlobalState lv) := do
  let account ← unwrap (s.accountStates.lookup accountId)
  let s := { s with
    accountStates := s.accountStates.insert accountId (account.updateOrderRoot orderRoot) }
  s.flushAccountState accountId

/-- The account must exist. -/
def increaseNonce (s : GlobalState lv) (accountId : ℕ) : Except Panic (GlobalState lv) := do
  let account ← unwrap (s.accountStates.lookup accountId)
  s.setAccountNonce accountId (account.nonce + 1)

/-- The error for an id without a leaf in the account tree. -/
def accountIdOverflows (lv : Levels) (accountId : ℕ) : AnyhowError :=
  ⟨s!"account_id {accountId} overflows for account_levels {lv.accountLevels}"⟩

/-- The number of the accounts is the next account id. -/
def getNextAccountId (s : GlobalState lv) : Except AnyhowError ℕ :=
  let accountId := s.balanceTrees.keys.length % 2 ^ 32
  if 2 ^ lv.accountLevels ≤ accountId then .error (accountIdOverflows lv accountId)
  else .ok accountId

/-- Nothing is done if the account exists. -/
def initAccount (s : GlobalState lv) (accountId nextOrderId : ℕ) :
    Except Panic (Except AnyhowError ℕ × GlobalState lv) :=
  if accountId ∈ s.accountStates then pure (.ok accountId, s)
  else if 2 ^ lv.accountLevels ≤ accountId then
    pure (.error (accountIdOverflows lv accountId), s)
  else do
    let accountTree ← s.accountTree.setValue accountId lv.defaultAccountLeaf
    pure (.ok accountId, { s with
      accountStates := s.accountStates.insert accountId lv.emptyAccount
      balanceTrees := s.balanceTrees.insert accountId lv.emptyBalanceTree
      orderTrees := s.orderTrees.insert accountId lv.emptyOrderTree
      orderStates := s.orderStates.insert accountId ∅
      accountTree := accountTree
      nextOrderPositions := s.nextOrderPositions.insert accountId nextOrderId })

/-- The new account has the next id; an error leaves the state as it is. -/
def createNewAccount (s : GlobalState lv) (nextOrderId : ℕ) :
    Except Panic (Except AnyhowError ℕ × GlobalState lv) :=
  match s.getNextAccountId with
  | .error e => pure (.error e, s)
  | .ok accountId => s.initAccount accountId nextOrderId

/-! ## Orders -/

/-- The slot recorded for an order, even if another order has taken it since. -/
def getOrderPosById (s : GlobalState lv) (accountId orderId : ℕ) : Option ℕ :=
  s.orderIdToPos.lookup (accountId, orderId)

/-- The id that is returned is the one of the account, not of the order. -/
def getOrderIdByPos (s : GlobalState lv) (accountId orderPos : ℕ) : Except Panic (Option ℕ) := do
  let orders ← unwrap (s.orderStates.lookup accountId)
  pure ((orders.lookup orderPos).map Order.accountId)

/-- A position is recorded for the order id. -/
def hasOrder (s : GlobalState lv) (accountId orderId : ℕ) : Prop :=
  (accountId, orderId) ∈ s.orderIdToPos

instance (s : GlobalState lv) (accountId orderId : ℕ) : Decidable (s.hasOrder accountId orderId) :=
  inferInstanceAs (Decidable (_ ∈ _))

/-- The default order in an empty slot. -/
def getAccountOrderByPos (s : GlobalState lv) (accountId orderPos : ℕ) : Except Panic Order := do
  let orders ← unwrap (s.orderStates.lookup accountId)
  pure ((orders.lookup orderPos).getD Order.default)

/-- The order in the slot that is recorded for the id. -/
def getAccountOrderById (s : GlobalState lv) (accountId orderId : ℕ) : Except Panic Order := do
  assert (s.hasOrder accountId orderId) "self.has_order(account_id, order_id)"
  let orderPos ← unwrap (s.getOrderPosById accountId orderId)
  s.getAccountOrderByPos accountId orderPos

/-- The first slot, in the order of the list, with a closed order older than the new one. -/
def replaceClosedOrder (s : GlobalState lv) (accountId orderId startPos : ℕ) :
    List ℕ → Except Panic (ℕ × GlobalState lv)
  | [] => .error (.explicit
      s!"Cannot find order pos, please use larger order tree height. account_id {accountId} order_id {orderId}")
  | i :: is => do
    let candidatePos := (startPos + i) % 2 ^ 32 % 2 ^ lv.orderLevels
    let order ← s.getAccountOrderByPos accountId candidatePos
    assert (¬order.isDefault) "!order.is_default()"
    if order.isFilled ∨ order.isActive = false then
      assert (orderId ≠ order.orderId) "order already in tree, why search location for it?"
      if order.orderId < orderId then
        pure (candidatePos, { s with
          nextOrderPositions := s.nextOrderPositions.insert accountId (candidatePos + 1) })
      else s.replaceClosedOrder accountId orderId startPos is
    else s.replaceClosedOrder accountId orderId startPos is

/-- The first free slot, or, when the tree is full, one with a closed order. -/
def getNextOrderPosForUser (s : GlobalState lv) (accountId orderId : ℕ) :
    Except Panic (ℕ × GlobalState lv) := do
  let orderStateTree ← unwrap (s.orderStates.lookup accountId)
  let orderNum := orderStateTree.keys.length
  assert (orderNum ≤ lv.maxOrderNumPerUser) "order_num <= self.max_order_num_per_user"
  if orderNum < lv.maxOrderNumPerUser then
    assert (orderStateTree.keys = [] ∨ orderStateTree.keys.max? = some (orderNum - 1))
      "the last order is at order_num - 1"
    pure (orderNum, s)
  else
    let startPos ← unwrap (s.nextOrderPositions.lookup accountId)
    s.replaceClosedOrder accountId orderId startPos (List.range (2 ^ lv.orderLevels))

/-- The id of an order that had the slot before keeps its entry. -/
def setOrderPosForId (s : GlobalState lv) (accountId orderPos orderId : ℕ) :
    Except Panic (GlobalState lv) := do
  assert (accountId ∈ s.orderTrees) "link_order_pos_and_id"
  if 2 ^ lv.orderLevels ≤ orderPos then .error (.explicit s!"order position {orderPos} invalid")
  else pure { s with orderIdToPos := s.orderIdToPos.insert (accountId, orderId) orderPos }

/-- The position for an order, with the order that is there. -/
def findOrInsertOrder (s : GlobalState lv) (accountId : ℕ) (order : Order) :
    Except Panic ((ℕ × Order) × GlobalState lv) :=
  match s.getOrderPosById accountId order.orderId with
  | some pos => do
    let oldOrder ← s.getAccountOrderByPos accountId pos
    pure ((pos, oldOrder), s)
  | none => do
    let (pos, s) ← s.getNextOrderPosForUser accountId order.orderId
    let oldOrder ← s.getAccountOrderByPos accountId pos
    let s ← s.setOrderPosForId accountId pos order.orderId
    pure ((pos, oldOrder), s)

/-- Neither the order tree nor the position of the order id is updated. -/
def updateOrderState (s : GlobalState lv) (accountId orderPos : ℕ) (order : Order) :
    Except Panic (GlobalState lv) := do
  let orders ← unwrap (s.orderStates.lookup accountId)
  pure { s with orderStates := s.orderStates.insert accountId (orders.insert orderPos order) }

/-- Neither the order nor the leaf of the account is updated. -/
def setOrderLeafHashRaw (s : GlobalState lv) (accountId orderPos : ℕ) (orderHash : Fr) :
    Except Panic (GlobalState lv) := do
  assert (accountId ∈ s.orderTrees) "set_order_leaf_hash_raw"
  let tree ← unwrap (s.orderTrees.lookup accountId)
  let tree ← tree.setValue orderPos orderHash
  pure { s with orderTrees := s.orderTrees.insert accountId tree }

/-- The leaf of the account is updated, the order is not. -/
def setOrderLeafHash (s : GlobalState lv) (accountId orderPos : ℕ) (orderHash : Fr) :
    Except Panic (GlobalState lv) := do
  let s ← s.setOrderLeafHashRaw accountId orderPos orderHash
  s.flushAccountState accountId

/-- Storing an order in a slot of the caller's choice, with its leaf and its position. -/
def setAccountOrder (s : GlobalState lv) (accountId orderPos : ℕ) (order : Order) :
    Except Panic (GlobalState lv) := do
  assert (accountId ∈ s.orderTrees) "set_account_order"
  if 2 ^ lv.orderLevels ≤ orderPos then
    .error (.explicit s!"order_pos {orderPos} invalid for order_levels {lv.orderLevels}")
  else
    let tree ← unwrap (s.orderTrees.lookup accountId)
    let tree ← tree.setValue orderPos order.hash
    let s := { s with orderTrees := s.orderTrees.insert accountId tree }
    let s ← s.updateOrderState accountId orderPos order
    let s := { s with orderIdToPos := s.orderIdToPos.insert (accountId, order.orderId) orderPos }
    s.flushAccountState accountId

/-- A cancelled order keeps its slot, and its position. -/
def cancelOrder (s : GlobalState lv) (accountId orderId : ℕ) : Except Panic (GlobalState lv) := do
  let orderPos ← unwrap (s.getOrderPosById accountId orderId)
  let orders ← unwrap (s.orderStates.lookup accountId)
  let order ← unwrap (orders.lookup orderPos)
  s.updateOrderState accountId orderPos { order with isActive := false }

/-! ## Balances -/

/-- Nothing is read from an account without a key. -/
def getTokenBalance (s : GlobalState lv) (accountId tokenId : ℕ) : Except Panic Fr :=
  if ¬s.hasAccount accountId then pure 0
  else do
    let tree ← unwrap (s.balanceTrees.lookup accountId)
    pure (tree.getLeaf tokenId)

/-- The leaf of the account is not updated. -/
def setTokenBalanceRaw (s : GlobalState lv) (accountId tokenId : ℕ) (balance : Fr) :
    Except Panic (GlobalState lv) := do
  assert (accountId ∈ s.balanceTrees) "set_token_balance"
  let tree ← unwrap (s.balanceTrees.lookup accountId)
  let tree ← tree.setValue tokenId balance
  pure { s with balanceTrees := s.balanceTrees.insert accountId tree }

/-- `init_account` and `unwrap`, for an account that does not exist. -/
def ensureAccount (s : GlobalState lv) (accountId : ℕ) : Except Panic (GlobalState lv) :=
  if accountId ∈ s.accountStates then pure s
  else do
    let (result, s) ← s.initAccount accountId lv.defaultNextOrderId
    let _ ← unwrap result.toOption
    pure s

/-- The account is created if it does not exist, without a key. -/
def setTokenBalance (s : GlobalState lv) (accountId tokenId : ℕ) (balance : Fr) :
    Except Panic (GlobalState lv) := do
  let s ← s.ensureAccount accountId
  let s ← s.setTokenBalanceRaw accountId tokenId balance
  s.flushAccountState accountId

/-! ## Batches -/

/-- A task locks its tree from the first of its updates to the last one. -/
def runTask (s : GlobalState lv) : Task → Except Panic (GlobalState lv)
  | .balance accountId updates parallel => do
    let tree ← unwrap (s.balanceTrees.lookup accountId)
    let tree ← tree.setValueParallel updates parallel
    pure { s with balanceTrees := s.balanceTrees.insert accountId tree }
  | .order accountId updates parallel => do
    let tree ← unwrap (s.orderTrees.lookup accountId)
    let tree ← tree.setValueParallel updates parallel
    pure { s with orderTrees := s.orderTrees.insert accountId tree }

/-- The tasks take effect in this order. -/
def runTasks (s : GlobalState lv) (tasks : List Task) : Except Panic (GlobalState lv) :=
  tasks.foldlM runTask s

/-- Every tree that is updated must exist. -/
def checkTrees (s : GlobalState lv) : List AccountUpdates → Except Panic Unit
  | [] => pure ()
  | update :: updates => do
    assert (update.accountId ∈ s.balanceTrees) "set_token_balance"
    assert (update.accountId ∈ s.orderTrees) "set_order_leaf_hash_raw"
    s.checkTrees updates

/-- The new nonces, and the hashes of the accounts whose trees have been updated. -/
def updateAccountStates (s : GlobalState lv) :
    List AccountUpdates → Except Panic (List (ℕ × Fr) × GlobalState lv)
  | [] => pure ([], s)
  | update :: updates => do
    let s ← s.updateNewNonce update.accountId update.newNonce
    let (accountHash, s) ← s.recalculateAccountStateHash update.accountId
    let (accountUpdates, s) ← s.updateAccountStates updates
    pure ((update.accountId, accountHash) :: accountUpdates, s)

/-- The updates of one account, written leaf by leaf. -/
def updateSequentially (s : GlobalState lv) (update : AccountUpdates) :
    Except Panic (GlobalState lv) := do
  let accountId := update.accountId
  let s ← update.balanceUpdates.foldlM (fun s u => s.setTokenBalanceRaw accountId u.1 u.2) s
  let s ← update.orderUpdates.foldlM (fun s u => s.setOrderLeafHashRaw accountId u.1 u.2) s
  let s ← s.updateNewNonce accountId update.newNonce
  s.flushAccountState accountId

/-- The trees are updated first, by tasks running in parallel, then the account tree. -/
def batchUpdate (s : GlobalState lv) (schedule : Shuffle Task) (updates : List AccountUpdates)
    (parallel : Bool) : Except Panic (GlobalState lv) :=
  if parallel then do
    s.checkTrees updates
    let s ← s.runTasks (schedule.order (updates.flatMap AccountUpdates.tasks))
    let (accountUpdates, s) ← s.updateAccountStates updates
    let accountTree ← s.accountTree.setValueParallel accountUpdates 2
    pure { s with accountTree := accountTree }
  else updates.foldlM updateSequentially s

/-! ## Proofs -/

/-- The opening of a slot. The account must have an order tree. -/
def orderProof (s : GlobalState lv) (accountId orderPos : ℕ) : Except Panic MerkleProof := do
  let tree ← unwrap (s.orderTrees.lookup accountId)
  pure (tree.getProof orderPos)

/-- The opening of a balance, in an empty tree if the account does not exist. -/
def balanceProof (s : GlobalState lv) (accountId tokenId : ℕ) : MerkleProof :=
  ((s.balanceTrees.lookup accountId).getD lv.emptyBalanceTree).getProof tokenId

/-- The opening of the leaf of an account. -/
def accountProof (s : GlobalState lv) (accountId : ℕ) : MerkleProof :=
  s.accountTree.getProof accountId

/-- The opening of a balance followed by the one of its account. -/
def balanceFullProof (s : GlobalState lv) (accountId tokenId : ℕ) : BalanceProof :=
  let accountProof := s.accountProof accountId
  let balanceProof := s.balanceProof accountId tokenId
  { leaf := balanceProof.leaf
    balancePath := balanceProof.pathElements
    balanceRoot := balanceProof.root
    accountHash := accountProof.leaf
    accountPath := accountProof.pathElements
    root := accountProof.root }

/-- The opening that a transaction without effect shows. -/
def trivialStateProof (s : GlobalState lv) : BalanceProof := s.balanceFullProof 0 0

end GlobalState

end Rollup
