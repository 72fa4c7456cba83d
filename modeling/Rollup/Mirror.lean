import Rollup.Ledger.Steps

/-!
# The trees mirror the state

The same facts are held twice: by the maps, and by the trees committing to them.
Whatever the operations, and even if they write balances out of range, an entry
stays committed to (`Entry.Committed`): the roots in its state are those of its
trees, and its order tree is the Merkle tree over the hashes of its orders. With
the account tree, which is the Merkle tree over the hashes of the states
(`Shows`), this makes the trees of every reachable state mirror its maps
(`GlobalState.Mirror`, `mirror_of_reachable`).
-/

namespace Rollup

section Mirror

variable [FluidexCommon] {lv : Levels}

/-! ## Entries -/

/-- The roots in the state are those of the trees, and the order tree commits to the orders. -/
structure Entry.Committed (e : Entry lv) : Prop where
  balanceRoot : e.state.balanceRoot = e.balanceTree.getRoot
  orderRoot : e.state.orderRoot = e.orderTree.getRoot
  orderTree : e.orderTree.Represents e.orderLeaf
  orderPos_lt : ∀ orderId pos, e.orderPos orderId = some pos → pos < 2 ^ lv.orderLevels

namespace Entry

variable {e e' : Entry lv}

theorem committed_create (lv : Levels) (n : ℕ) : (Entry.create lv n).Committed where
  balanceRoot := rfl
  orderRoot := rfl
  orderTree := Tree.represents_empty _ _
  orderPos_lt _ _ h := by cases h

theorem orderLeaf_setOrder (e : Entry lv) (pos : ℕ) (order : Order) :
    (e.setOrder pos order).orderLeaf = Function.update e.orderLeaf pos order.hash := by
  funext i
  simp only [orderLeaf, orderAt, setOrder, lookup_insert_ite, Function.update_apply]
  split <;> rfl

/-- A position found or given is in range. -/
theorem Place.lt {orderId pos : ℕ} (h : e.Place orderId pos e') (he : e.Committed) :
    pos < 2 ^ lv.orderLevels := by
  cases h with
  | known hp => exact he.orderPos_lt _ _ hp
  | new _ _ hs =>
    cases hs with
    | free hlt _ => exact hlt
    | closed _ hlt _ _ _ _ => exact hlt

theorem Place.orderPos_lt {orderId pos : ℕ} (h : e.Place orderId pos e') (he : e.Committed)
    {orderId' pos' : ℕ} (hp : e'.orderPos orderId' = some pos') : pos' < 2 ^ lv.orderLevels := by
  rcases eq_or_ne orderId' orderId with rfl | hne
  · rw [h.orderPos_self, Option.some.injEq] at hp
    exact hp ▸ h.lt he
  · exact he.orderPos_lt orderId' pos' (h.orderPos_of_ne hne ▸ hp)

/-- The order of a trade is in range. -/
theorem Trades.pos_lt {order : Order} {pos : ℕ} {sell buy : Fr} {updates : List (ℕ × Fr)}
    (h : e.Trades order pos sell buy updates e') (he : e.Committed) : pos < 2 ^ lv.orderLevels := by
  obtain ⟨placed, ot, hplace, -, -⟩ := h
  exact hplace.lt he

namespace Committed

/-- Committing after changing anything but the orders. -/
theorem commit (he : e.Committed) (ht : e'.orderTree = e.orderTree) (ho : e'.orders = e.orders)
    (hp : e'.orderPos = e.orderPos) : e'.commit.Committed where
  balanceRoot := rfl
  orderRoot := rfl
  orderTree := by
    have hleaf : e'.commit.orderLeaf = e.orderLeaf := by
      funext pos
      rw [orderLeaf, orderLeaf, orderAt, orderAt, ← ho]
      rfl
    rw [hleaf]
    exact ht ▸ he.orderTree
  orderPos_lt orderId pos h := he.orderPos_lt orderId pos (hp ▸ h)

/-- Committing after setting an order and its leaf. -/
theorem setOrder (he : e.Committed) {pos : ℕ} (hpos : pos < 2 ^ lv.orderLevels) {order : Order}
    {t : Tree lv.orderLevels} (hset : e.orderTree.setValue pos order.hash = .ok t)
    (ht : e'.orderTree = t) (ho : e'.orders = e.orders.insert pos order)
    (hp : ∀ orderId pos, e'.orderPos orderId = some pos → pos < 2 ^ lv.orderLevels) :
    e'.commit.Committed where
  balanceRoot := rfl
  orderRoot := rfl
  orderTree := by
    have hleaf : e'.commit.orderLeaf = (e.setOrder pos order).orderLeaf := by
      funext i
      rw [orderLeaf, orderLeaf, orderAt, orderAt, Entry.setOrder, ← ho]
      rfl
    rw [hleaf, orderLeaf_setOrder]
    exact ht ▸ he.orderTree.setValue hpos hset
  orderPos_lt := hp

/-- So does a trade. -/
theorem trades (he : e.Committed) {order : Order} {pos : ℕ} {sell buy : Fr}
    {updates : List (ℕ × Fr)} (h : e.Trades order pos sell buy updates e') : e'.Committed := by
  obtain ⟨placed, ot, hplace, hset, rfl⟩ := h
  refine he.setOrder (hplace.lt he) hset rfl ?_ fun orderId pos' h => hplace.orderPos_lt he h
  rw [← hplace.orders_eq]
  rfl

/-- Every change leaves the entry committed to. -/
theorem change (he : e.Committed) {op : Op} (h : e.Change op e') : e'.Committed := by
  cases h with
  | l2Addr sign ay => exact ⟨he.balanceRoot, he.orderRoot, he.orderTree, he.orderPos_lt⟩
  | nonce nonce => exact he.commit rfl rfl rfl
  | setBalance _ _ => exact he.commit rfl rfl rfl
  | putBalances _ => exact he.commit rfl rfl rfl
  | setOrder hpos hset =>
    refine he.setOrder hpos hset rfl rfl fun orderId pos' h => ?_
    simp only [Entry.setOrderPos, Function.update_apply] at h
    split at h
    · exact Option.some.inj h ▸ hpos
    · exact he.orderPos_lt _ _ h
  | cancel hpos horder =>
    refine ⟨he.balanceRoot, he.orderRoot, ?_, he.orderPos_lt⟩
    -- Cancelling an order does not change its hash.
    rename_i pos order
    have hhash : e.orderLeaf pos = Order.hash { order with isActive := false } := by
      rw [orderLeaf, orderAt, horder]
      rfl
    rw [orderLeaf_setOrder, ← hhash, Function.update_eq_self]
    exact he.orderTree
  | trade _ htrade => exact he.trades htrade

end Committed

end Entry

/-! ## States -/

/-- The committed trees mirror the plain state. -/
structure GlobalState.Mirror (s : GlobalState lv) : Prop where
  /-- The maps have the same accounts. -/
  mem_balanceTrees : ∀ a, a ∈ s.balanceTrees ↔ a ∈ s.accountStates
  mem_orderTrees : ∀ a, a ∈ s.orderTrees ↔ a ∈ s.accountStates
  mem_orderStates : ∀ a, a ∈ s.orderStates ↔ a ∈ s.accountStates
  mem_nextOrderPositions : ∀ a, a ∈ s.nextOrderPositions ↔ a ∈ s.accountStates
  /-- The leaf of an account is the hash of its state. -/
  accountLeaf : ∀ a acc, s.accountStates.lookup a = some acc →
    a < 2 ^ lv.accountLevels ∧ s.accountTree.getLeaf a = acc.hash
  balanceRoot : ∀ a acc tree, s.accountStates.lookup a = some acc →
    s.balanceTrees.lookup a = some tree → acc.balanceRoot = tree.getRoot
  orderRoot : ∀ a acc tree, s.accountStates.lookup a = some acc →
    s.orderTrees.lookup a = some tree → acc.orderRoot = tree.getRoot
  /-- The leaf of an order is its hash. -/
  orderLeaf : ∀ a tree orders, s.orderTrees.lookup a = some tree →
    s.orderStates.lookup a = some orders → ∀ pos < 2 ^ lv.orderLevels,
      tree.getLeaf pos = ((orders.lookup pos).map Order.hash).getD lv.defaultOrderLeaf
  /-- The other leaves have the default value. -/
  defaultLeaf : ∀ a < 2 ^ lv.accountLevels, a ∉ s.accountStates →
    s.accountTree.getLeaf a = lv.defaultAccountLeaf

/-- A state showing a ledger of entries that are committed to mirrors it. -/
theorem Shows.mirror {s : GlobalState lv} {L : Ledger lv} (h : Shows s L)
    (hL : ∀ a e, L a = some e → e.Committed) : s.Mirror where
  mem_balanceTrees a := by rw [h.mem_balanceTrees, h.mem_accountStates]
  mem_orderTrees a := by rw [h.mem_orderTrees, h.mem_accountStates]
  mem_orderStates a := by
    rw [← AList.lookup_isSome, h.orderStates, Option.isSome_map, h.mem_accountStates]
  mem_nextOrderPositions a := by
    rw [← AList.lookup_isSome, h.nextOrderPositions, Option.isSome_map, h.mem_accountStates]
  accountLeaf a acc hacc := by
    obtain ⟨e, he, rfl⟩ := h.exists_entry hacc
    rw [h.accountTree.getLeaf (h.lt he), Ledger.leaf_of_some he]
    exact ⟨h.lt he, rfl⟩
  balanceRoot a acc tree hacc htree := by
    obtain ⟨e, he, rfl⟩ := h.exists_entry hacc
    obtain rfl := Option.some.inj ((h.lookup_balanceTrees he).symm.trans htree)
    exact (hL a e he).balanceRoot
  orderRoot a acc tree hacc htree := by
    obtain ⟨e, he, rfl⟩ := h.exists_entry hacc
    obtain rfl := Option.some.inj ((h.lookup_orderTrees he).symm.trans htree)
    exact (hL a e he).orderRoot
  orderLeaf a tree orders htree horders pos hpos := by
    rw [h.orderTrees, Option.map_eq_some_iff] at htree
    obtain ⟨e, he, rfl⟩ := htree
    obtain rfl := Option.some.inj ((h.lookup_orderStates he).symm.trans horders)
    -- A slot is empty, or its order has the hash that is in the tree.
    rw [(hL a e he).orderTree.getLeaf hpos, Entry.orderLeaf, Entry.orderAt]
    cases e.orders.lookup pos <;> rfl
  defaultLeaf a ha hnot := by
    have hnone : L a = none := by simpa [h.mem_accountStates] using hnot
    rw [h.accountTree.getLeaf ha, Ledger.leaf_of_none hnone]

/-- Every reachable state shows a ledger of entries that are committed to. -/
theorem exists_committed {n : Node lv} {allowed : Node lv → Op → Prop} {nTx persistEveryNBlock : ℕ}
    {blockOffset : Option ℕ}
    (hn : Exec.Reachable Node.step allowed (Node.new lv nTx blockOffset persistEveryNBlock) n) :
    ∃ L, Shows n.state L ∧ ∀ a e, L a = some e → e.Committed :=
  Node.reachable_ledger (Entry.committed_create lv) (fun _ _ _ _ _ he h => he.change h) hn

/-- Whatever the operations, the trees mirror the state. -/
theorem mirror_of_reachable {n : Node lv} {nTx persistEveryNBlock : ℕ} {blockOffset : Option ℕ}
    (hn : Exec.Reachable Node.step (fun _ _ => True)
      (Node.new lv nTx blockOffset persistEveryNBlock) n) : n.state.Mirror := by
  obtain ⟨L, h, hL⟩ := exists_committed hn
  exact h.mirror hL

end Mirror

/-- A run through every kind of operation. -/
def mixedOps : List Op :=
  [.createNewAccount 1, .setAccountL2Addr 0 1 5, .setTokenBalance 0 1 100, .setAccountNonce 0 7,
    .setAccountOrder 0 0 { Order.default with orderId := 3, totalSell := 10 },
    .keyUpdate ⟨1, ⟨1, 1, 6⟩⟩ none, .deposit ⟨1, 0, 50, none⟩ none,
    .transfer .id ⟨0, 1, 1, 20, 7, .default, none⟩ none,
    .withdraw ⟨1, 0, 10, 0, 50, .default⟩ none,
    .fullSpotTrade .reverse ⟨⟨0, 1, 1, 0, 5, 6, 3, 4⟩, none,
      some { Order.default with accountId := 1, orderId := 4, totalBuy := 5 }⟩ none,
    .cancelOrder 0 3, .nop, .popAllBlocks]

attribute [local instance] FluidexCommon.sample in
theorem mirror_mixedOps :
    ∃ n, Exec.run Node.step (Node.new Levels.small 2 none 9) mixedOps = .ok n ∧ n.state.Mirror := by
  obtain ⟨n, hn⟩ := Exec.exists_eq_ok
    (Exec.run Node.step (Node.new Levels.small 2 none 9) mixedOps) (by decide +kernel)
  exact ⟨n, hn, mirror_of_reachable (Exec.Reachable.init.run (fun _ _ _ => trivial) hn)⟩

end Rollup
