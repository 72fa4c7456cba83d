import Rollup.Openings

/-!
# Two steps

A transfer and a trade change two accounts by one batch, which the circuit checks
as two updates of the account tree, one after the other: the first account is
updated along its path in the old tree, the second one along its path in the new
tree, and both updates must meet in the same root, the one of the tree in which
only the first account has changed. For a trade, the same holds of the two
balances of each account, and the order leaves open to the order roots. What the
circuit replays is what happens to the state (`RawTx.TransfersBetween`,
`RawTx.TradesBetween`): the updated leaves are those of the two accounts before and
after the transaction.
-/

namespace Rollup

section TwoStep

variable [FluidexCommon] {lv : Levels}

/-! ## What the circuit replays -/

namespace RawTx

/-- The sender of a transfer after it, along its path before it. -/
def transferNew1 (rawTx : RawTx) : Opening :=
  { rawTx.opening1 with
    nonce := rawTx.payload .nonce1 + 1
    balance := rawTx.payload .balance1 - rawTx.payload .amount }

/-- The receiver of a transfer before it, along its path after it. -/
def transferOld2 (rawTx : RawTx) : Opening :=
  { rawTx.opening2 with balance := rawTx.payload .balance2 - rawTx.payload .amount }

/-- A transfer is two updates of the account tree, one after the other. -/
structure TwoStepTransfer (rawTx : RawTx) : Prop where
  before : rawTx.opening1.root = rawTx.rootBefore
  middle : rawTx.transferNew1.root = rawTx.transferOld2.root
  after : rawTx.opening2.root = rawTx.rootAfter

/-- The tokens of a trade. -/
def token1to2 (rawTx : RawTx) : Fr := rawTx.payload .newOrder1TokenSell

/-- The token that the second account sells. -/
def token2to1 (rawTx : RawTx) : Fr := rawTx.payload .newOrder2TokenSell

/-- The balance root of an account of a trade, from one of its balances. -/
def balanceFold (path : List Fr) (token balance : Fr) : Fr :=
  Merkle.fold Tree.hash2 path token.val balance

/-- The order root of an account of a trade, from the leaf of its order. -/
def orderFold (path : List Fr) (pos leaf : Fr) : Fr := Merkle.fold Tree.hash2 path pos.val leaf

/-- The leaves of the orders that were at the positions of the two orders. -/
def oldOrder1Leaf (rawTx : RawTx) : Fr :=
  Fr.hash [rawTx.payload .oldOrder1Id + Fr.shl (rawTx.payload .oldOrder1TokenBuy) 32 +
      Fr.shl (rawTx.payload .oldOrder1TokenSell) 64,
    rawTx.payload .oldOrder1FilledSell, rawTx.payload .oldOrder1FilledBuy,
    rawTx.payload .oldOrder1AmountSell, rawTx.payload .oldOrder1AmountBuy]

/-- The leaf of the slot of the second order before the trade, from its inputs. -/
def oldOrder2Leaf (rawTx : RawTx) : Fr :=
  Fr.hash [rawTx.payload .oldOrder2Id + Fr.shl (rawTx.payload .oldOrder2TokenBuy) 32 +
      Fr.shl (rawTx.payload .oldOrder2TokenSell) 64,
    rawTx.payload .oldOrder2FilledSell, rawTx.payload .oldOrder2FilledBuy,
    rawTx.payload .oldOrder2AmountSell, rawTx.payload .oldOrder2AmountBuy]

/-- The payload describes the first order after the trade, its totals being compressed. -/
structure NewOrder1 (rawTx : RawTx) (order : Order) : Prop where
  orderId : rawTx.payload .newOrder1Id = order.orderId
  tokenSell : rawTx.payload .newOrder1TokenSell = order.tokenSell
  tokenBuy : rawTx.payload .newOrder1TokenBuy = order.tokenBuy
  filledSell : rawTx.payload .newOrder1FilledSell = order.filledSell
  filledBuy : rawTx.payload .newOrder1FilledBuy = order.filledBuy
  totals : compressTotals order =
    .ok (rawTx.payload .newOrder1AmountSell, rawTx.payload .newOrder1AmountBuy)

/-- The payload describes the second order after the trade. -/
structure NewOrder2 (rawTx : RawTx) (order : Order) : Prop where
  orderId : rawTx.payload .newOrder2Id = order.orderId
  tokenSell : rawTx.payload .newOrder2TokenSell = order.tokenSell
  tokenBuy : rawTx.payload .newOrder2TokenBuy = order.tokenBuy
  filledSell : rawTx.payload .newOrder2FilledSell = order.filledSell
  filledBuy : rawTx.payload .newOrder2FilledBuy = order.filledBuy
  totals : compressTotals order =
    .ok (rawTx.payload .newOrder2AmountSell, rawTx.payload .newOrder2AmountBuy)

/-- The first account of a trade after it, with the new leaf of its order. -/
def tradeNew1 (rawTx : RawTx) (orderLeaf : Fr) : Opening where
  accountId := rawTx.payload .accountId1
  tokenId := rawTx.token2to1
  balance := rawTx.payload .balance4
  nonce := rawTx.payload .nonce1
  sign := rawTx.payload .sign1
  ay := rawTx.payload .ay1
  orderRoot := orderFold rawTx.orderPath0 (rawTx.payload .order1Pos) orderLeaf
  balancePath := rawTx.balancePath3
  accountPath := rawTx.accountPath0

/-- The second account of a trade before it, with the old leaf at the position of its order. -/
def tradeOld2 (rawTx : RawTx) : Opening where
  accountId := rawTx.payload .accountId2
  tokenId := rawTx.token2to1
  balance := rawTx.payload .balance3
  nonce := rawTx.payload .nonce2
  sign := rawTx.payload .sign2
  ay := rawTx.payload .ay2
  orderRoot := orderFold rawTx.orderPath1 (rawTx.payload .order2Pos) rawTx.oldOrder2Leaf
  balancePath := rawTx.balancePath2
  accountPath := rawTx.accountPath1

/-- A trade is two updates of the account tree, each made of two updates of balances
    and one of an order. -/
structure TwoStepTrade (rawTx : RawTx) (order1 order2 : Order) : Prop where
  before : rawTx.opening1.root = rawTx.rootBefore
  balances1 : balanceFold rawTx.balancePath0 rawTx.token1to2
      (rawTx.payload .balance1 - rawTx.payload .amount1) =
    balanceFold rawTx.balancePath3 rawTx.token2to1
      (rawTx.payload .balance4 - rawTx.payload .amount2)
  oldOrder1 : orderFold rawTx.orderPath0 (rawTx.payload .order1Pos) rawTx.oldOrder1Leaf =
    rawTx.orderRoot0
  middle : (rawTx.tradeNew1 order1.hash).root = rawTx.tradeOld2.root
  balances2 : balanceFold rawTx.balancePath2 rawTx.token2to1
      (rawTx.payload .balance3 - rawTx.payload .amount2) =
    balanceFold rawTx.balancePath1 rawTx.token1to2
      (rawTx.payload .balance2 - rawTx.payload .amount1)
  newOrder2 : orderFold rawTx.orderPath1 (rawTx.payload .order2Pos) order2.hash = rawTx.orderRoot1
  after : rawTx.opening2.root = rawTx.rootAfter

end RawTx

/-- The opening is of what the state holds: the account, with its leaf, and its balance. -/
structure Opening.OfState (o : Opening) (s : GlobalState lv) (a token : ℕ) : Prop where
  accountId : o.accountId = a
  tokenId : o.tokenId = token
  account : o.account = s.getAccount a
  leaf : o.account.hash = s.accountTree.getLeaf a
  balance : s.getTokenBalance a token = .ok o.balance

namespace RawTx

/-- The two updates of a transfer lead from the state before it to the state after it:
    the sender is updated along its path before, the receiver along its path after. -/
structure TransfersBetween (rawTx : RawTx) (tx : TransferTx) (s s' : GlobalState lv) : Prop
    extends rawTx.TwoStepTransfer where
  rootBefore : rawTx.rootBefore = s.root
  rootAfter : rawTx.rootAfter = s'.root
  amount : rawTx.payload .amount = tx.amount.toFr
  accountPath0 : rawTx.accountPath0 = (s.accountTree.getProof tx.fromId).pathElements
  accountPath1 : rawTx.accountPath1 = (s'.accountTree.getProof tx.toId).pathElements
  old1 : rawTx.opening1.OfState s tx.fromId tx.tokenId
  new1 : rawTx.transferNew1.OfState s' tx.fromId tx.tokenId
  old2 : rawTx.transferOld2.OfState s tx.toId tx.tokenId
  new2 : rawTx.opening2.OfState s' tx.toId tx.tokenId

/-- The two updates of a trade lead from the state before it to the state after it, and
    so do those of the balances and of the orders within them. -/
structure TradesBetween (rawTx : RawTx) (t : SpotTradeTx) (order1 order2 : Order) (pos1 pos2 : ℕ)
    (s s' : GlobalState lv) : Prop extends rawTx.TwoStepTrade order1 order2 where
  rootBefore : rawTx.rootBefore = s.root
  rootAfter : rawTx.rootAfter = s'.root
  amount1 : rawTx.payload .amount1 = t.amount1to2
  amount2 : rawTx.payload .amount2 = t.amount2to1
  token1to2 : rawTx.token1to2 = t.tokenId1to2
  token2to1 : rawTx.token2to1 = t.tokenId2to1
  order1Pos : rawTx.payload .order1Pos = pos1
  order2Pos : rawTx.payload .order2Pos = pos2
  accountPath0 : rawTx.accountPath0 = (s.accountTree.getProof t.order1AccountId).pathElements
  accountPath1 : rawTx.accountPath1 = (s'.accountTree.getProof t.order2AccountId).pathElements
  old1 : rawTx.opening1.OfState s t.order1AccountId t.tokenId1to2
  new1 : (rawTx.tradeNew1 order1.hash).OfState s' t.order1AccountId t.tokenId2to1
  old2 : rawTx.tradeOld2.OfState s t.order2AccountId t.tokenId2to1
  new2 : rawTx.opening2.OfState s' t.order2AccountId t.tokenId1to2
  sold1 : s'.getTokenBalance t.order1AccountId t.tokenId1to2 =
    .ok (rawTx.payload .balance1 - rawTx.payload .amount1)
  bought1 : s.getTokenBalance t.order1AccountId t.tokenId2to1 =
    .ok (rawTx.payload .balance4 - rawTx.payload .amount2)
  sold2 : s'.getTokenBalance t.order2AccountId t.tokenId2to1 =
    .ok (rawTx.payload .balance3 - rawTx.payload .amount2)
  bought2 : s.getTokenBalance t.order2AccountId t.tokenId1to2 =
    .ok (rawTx.payload .balance2 - rawTx.payload .amount1)
  oldLeaf1 : ∃ tree, s.orderTrees.lookup t.order1AccountId = some tree ∧
    rawTx.oldOrder1Leaf = tree.getLeaf pos1
  oldLeaf2 : ∃ tree, s.orderTrees.lookup t.order2AccountId = some tree ∧
    rawTx.oldOrder2Leaf = tree.getLeaf pos2
  describes1 : rawTx.NewOrder1 order1
  describes2 : rawTx.NewOrder2 order2
  placed1 : s'.getAccountOrderByPos t.order1AccountId pos1 = .ok order1
  placed2 : s'.getAccountOrderByPos t.order2AccountId pos2 = .ok order2

end RawTx

/-! ## Transfers -/

variable {s s' : GlobalState lv} {L : Ledger lv} {offset : Option ℤ}

/-- An opening of an entry with a key is of the state that shows it. -/
theorem Opening.ofState (h : Shows s L) {a token : ℕ} {e : Entry lv} (he : L.entry a = e)
    (ha : a < 2 ^ lv.accountLevels) (hay : e.state.ay ≠ 0) {o : Opening} (hacc : o.accountId = a)
    (hid : o.tokenId = token) (haccount : o.account = e.state)
    (hbal : o.balance = e.balanceTree.getLeaf token) : o.OfState s a token where
  accountId := hacc
  tokenId := hid
  account := by rw [h.getAccount_eq, he, haccount]
  leaf := by rw [h.accountTree.getLeaf ha, Ledger.leaf, he, haccount]
  balance := by rw [h.getTokenBalance_eq, he, Entry.balance_of_keyed hay, hbal]

/-- The opening of an entry of the ledger is one of the account in the state. -/
theorem Opening.Of.ofState (h : Shows s L) {a token : ℕ} {e : Entry lv} {o : Opening}
    (ho : o.Of s a token e) (he : L.entry a = e) (hsound : e.Sound)
    (ha : a < 2 ^ lv.accountLevels) (hay : e.state.ay ≠ 0)
    (htoken : token < 2 ^ lv.balanceLevels) : o.OfState s a token :=
  Opening.ofState h he ha hay ho.accountId ho.tokenId (ho.account_eq hsound htoken) ho.balance

/-- Openings of an account before its update and along its path after it lead to
    the roots of trees that only differ by this account. -/
theorem Opening.root_set (h' : Shows s' L) {M : Ledger lv} {a : ℕ} {e : Entry lv}
    (hL : L = M.set a e) {o : Opening} (hacc : o.accountId = a)
    (hpath : o.accountPath = (s'.accountTree.getProof a).pathElements)
    (ho : o.account = (M.entry a).state) :
    o.root = Merkle.node Tree.hash2 M.leaf lv.accountLevels 0 := by
  subst hL
  have hleaf : o.account.hash = M.leaf a := by rw [ho, Ledger.leaf]
  rw [Opening.root_eq h' (h'.lt (M.set_self a e)) hacc hpath, M.leaf_set, Function.update_idem,
    hleaf, Function.update_eq_self]

/-- The first account after a transfer is the sender that has paid. -/
theorem Ledger.DescribesTransfer.transferNew1_account {tx : TransferTx} {s₁ : GlobalState lv}
    {rawTx : RawTx} (hraw : L.DescribesTransfer tx s s₁ s' rawTx) {e : Entry lv}
    (he : L tx.fromId = some e) (hsound : e.Sound) (hay : e.state.ay ≠ 0)
    (htoken : tx.tokenId < 2 ^ lv.balanceLevels) :
    rawTx.transferNew1.account = (e.send tx).state := by
  have hpay := hraw.payload
  have hentry := Ledger.entry_of_some he
  have hbal := Entry.balance_of_keyed hay tx.tokenId
  have hupd := hsound.putBalances [(tx.tokenId, e.balance tx.tokenId - tx.amount.toFr)]
    (by simpa using htoken)
  have hroot : rawTx.transferNew1.balanceRoot = (e.send tx).balanceTree.getRoot := by
    rw [Opening.balanceRoot_eq hsound.represents htoken]
    · rw [RawTx.transferNew1, hpay]
      simp only [transferPayload, hentry]
      exact hupd.getRoot.symm
    · simp only [RawTx.transferNew1, RawTx.opening1, hpay, transferPayload]
    · rw [← hentry]
      exact hraw.balancePath0
  rw [Opening.account, hroot]
  simp only [RawTx.transferNew1, RawTx.opening1, hpay, transferPayload, hraw.orderRoot0, hentry,
    hsound.orderRoot]
  rfl

/-- The second account before a transfer is the receiver as it was. -/
theorem Ledger.DescribesTransfer.transferOld2_account {tx : TransferTx} {rawTx : RawTx}
    (hraw : L.DescribesTransfer tx s s' s' rawTx) (hkey : tx.l2key = none)
    (h' : Shows s' ((L.set tx.fromId ((L.entry tx.fromId).send tx)).set tx.toId
      ((L.entry tx.toId).receive tx)))
    (hsound : (L.entry tx.toId).Sound) (hay : (L.entry tx.toId).state.ay ≠ 0)
    (htoken : tx.tokenId < 2 ^ lv.balanceLevels) :
    rawTx.transferOld2.account = (L.entry tx.toId).state := by
  have hpay := hraw.payload
  have hentry' := Ledger.entry_of_some (Ledger.set_self
    (L.set tx.fromId ((L.entry tx.fromId).send tx)) tx.toId ((L.entry tx.toId).receive tx))
  have hbal := Entry.balance_of_keyed hay tx.tokenId
  have hupd := hsound.putBalances
    [(tx.tokenId, (L.entry tx.toId).balance tx.tokenId + tx.amount.toFr)] (by simpa using htoken)
  have hroot : rawTx.transferOld2.balanceRoot = (L.entry tx.toId).state.balanceRoot := by
    rw [Opening.balanceRoot_eq hupd htoken, hsound.balanceRoot, hsound.represents.getRoot]
    · rw [RawTx.transferOld2, hpay]
      simp [transferPayload, hbal]
    · simp only [RawTx.transferOld2, RawTx.opening2, hpay, transferPayload]
    · rw [RawTx.transferOld2, RawTx.opening2, hraw.balancePath1, h'.balanceProof_eq, hentry']
      rfl
  rw [Opening.account, hroot]
  simp only [RawTx.transferOld2, RawTx.opening2, hpay, transferPayload, hkey, hraw.orderRoot1]
  rfl

/-- A transfer to another account that has a key. -/
theorem transfer_twoStep (h : Shows s L) (hL : ∀ a, (L.entry a).Sound) {schedule : Shuffle Task}
    {tx : TransferTx} (htoken : tx.tokenId < 2 ^ lv.balanceLevels) (hne : tx.fromId ≠ tx.toId)
    (hto : s.hasAccount tx.toId) (hkey : tx.l2key = none) {rawTx : RawTx}
    (hr : s.transfer schedule tx offset = .ok (rawTx, s')) : rawTx.TransfersBetween tx s s' := by
  have hver := transfer_openings h hL htoken hne hkey hr
  obtain ⟨hcan, hraw, h'⟩ := transfer_spec_of_ne h hne hkey hr
  have hpay := hraw.payload
  obtain ⟨e, he, hay⟩ := hcan.keyed
  have hentry := Ledger.entry_of_some he
  have hsound : e.Sound := hentry ▸ hL tx.fromId
  have hay2 := (h.hasAccount_iff _).1 hto
  -- The account that the first opening describes after the update, and the second one before it.
  have hnew := hraw.transferNew1_account he hsound hay htoken
  have hold := hraw.transferOld2_account hkey h' (hL tx.toId) hay2 htoken
  have hacc1 : rawTx.transferNew1.accountId = tx.fromId := by
    simp only [RawTx.transferNew1, RawTx.opening1, hpay, transferPayload]
  have hacc2 : rawTx.transferOld2.accountId = tx.toId := by
    simp only [RawTx.transferOld2, RawTx.opening2, hpay, transferPayload]
  have hlt1 := h.lt he
  have hlt2 : tx.toId < 2 ^ lv.accountLevels := h'.lt (Ledger.set_self _ _ _)
  have hentry1' : ((L.set tx.fromId ((L.entry tx.fromId).send tx)).set tx.toId
      ((L.entry tx.toId).receive tx)).entry tx.fromId = e.send tx := by
    rw [Ledger.entry, Ledger.set_of_ne _ _ hne, L.set_self, Option.getD_some, hentry]
  have hentry2' := Ledger.entry_of_some (Ledger.set_self
    (L.set tx.fromId ((L.entry tx.fromId).send tx)) tx.toId ((L.entry tx.toId).receive tx))
  refine ⟨⟨hver.before (by rw [hpay]; exact Fr.one_ne_zero), ?_,
    hver.after (by rw [hpay]; exact Fr.one_ne_zero)⟩, hraw.rootBefore, hraw.rootAfter,
    by simp only [hpay, transferPayload], hraw.accountPath0, hraw.accountPath1, ?_, ?_, ?_, ?_⟩
  · -- Both lead to the tree in which only the sender has changed.
    rw [Opening.root_eq h hlt1 hacc1 hraw.accountPath0, hnew, ← Ledger.leaf_set,
      Opening.root_set h' rfl hacc2 hraw.accountPath1 ?_, hentry]
    rw [hold, Ledger.entry, Ledger.entry, Ledger.set_of_ne _ _ hne.symm]
  · exact (hraw.opening1_of (hentry ▸ hay)).ofState h rfl (hL _) hlt1 (hentry ▸ hay) htoken
  · -- After the transfer the sender has the amount less.
    refine Opening.ofState h' hentry1' hlt1 hay hacc1 ?_ hnew ?_
    · simp only [RawTx.transferNew1, RawTx.opening1, hpay, transferPayload]
    · refine Eq.trans ?_ (e.getLeaf_putBalances
        [(tx.tokenId, e.balance tx.tokenId - tx.amount.toFr)] htoken).symm
      simp only [RawTx.transferNew1, RawTx.opening1, hpay, transferPayload, hentry, writes_cons,
        writes_nil, Function.update_self]
  · -- Before it the receiver has the amount less than in the second opening.
    refine Opening.ofState h rfl hlt2 hay2 hacc2 ?_ hold ?_
    · simp only [RawTx.transferOld2, RawTx.opening2, hpay, transferPayload]
    · simp only [RawTx.transferOld2, RawTx.opening2, hpay, transferPayload, add_sub_cancel_right,
        Entry.balance_of_keyed hay2]
  · exact (hraw.opening2_of hL hkey htoken h').ofState h' hentry2' (sound_receive hL htoken) hlt2
      hay2 htoken

/-! ## Trades -/

namespace Entry

variable {e e' : Entry lv} {pos : ℕ}

/-- The leaf at a position opens to the order root. -/
theorem Committed.fold_orderLeaf (he : e.Committed) (hpos : pos < 2 ^ lv.orderLevels) :
    Merkle.fold Tree.hash2 (e.orderTree.getProof pos).pathElements pos (e.orderLeaf pos) =
      e.state.orderRoot := by
  rw [he.orderTree.fold hpos, Function.update_eq_self, he.orderRoot, he.orderTree.getRoot]

/-- The new leaf of the order of a trade opens, along its old path, to the new order root. -/
theorem Trades.fold_order {order : Order} {sell buy : Fr} {updates : List (ℕ × Fr)}
    (h : e.Trades order pos sell buy updates e') (he : e.Committed) :
    Merkle.fold Tree.hash2 (e.orderTree.getProof pos).pathElements pos
      (order.tradeWith sell buy).hash = e'.state.orderRoot := by
  rw [he.orderTree.fold (h.pos_lt he), h.state_eq]
  exact (he.orderTree.setValue (h.pos_lt he) h.setValue_orderTree).getRoot.symm

end Entry

namespace Trade.Describes

variable {T : Trade lv} {t : SpotTradeTx} {e1' e2' : Entry lv} {rawTx : RawTx}
  (hraw : T.Describes t s s' e1' e2' rawTx)
include hraw

theorem newOrder1 : rawTx.NewOrder1 (T.new1 t) := by
  obtain ⟨amounts1, amounts2, hamounts1, -, hpay⟩ := hraw.payload
  constructor <;> simp only [hpay, spotTradePayload, hamounts1]

theorem newOrder2 : rawTx.NewOrder2 (T.new2 t) := by
  obtain ⟨amounts1, amounts2, -, hamounts2, hpay⟩ := hraw.payload
  constructor <;> simp only [hpay, spotTradePayload, hamounts2]

/-- What the slot held before is read from the inputs. -/
theorem oldOrder1Leaf_eq : rawTx.oldOrder1Leaf = T.e1.orderLeaf T.pos1 := by
  obtain ⟨amounts1, amounts2, -, -, hpay⟩ := hraw.payload
  simp only [RawTx.oldOrder1Leaf, hpay, spotTradePayload]
  rfl

theorem oldOrder2Leaf_eq : rawTx.oldOrder2Leaf = T.e2.orderLeaf T.pos2 := by
  obtain ⟨amounts1, amounts2, -, -, hpay⟩ := hraw.payload
  simp only [RawTx.oldOrder2Leaf, hpay, spotTradePayload]
  rfl

end Trade.Describes

/-- The facts about a trade that its raw transaction is checked against. -/
structure Trade.Checked (T : Trade lv) (t : SpotTradeTx) (e1' e2' : Entry lv) : Prop where
  sound1 : T.e1.Sound
  sound2 : T.e2.Sound
  keyed1 : T.e1.state.ay ≠ 0
  keyed2 : T.e2.state.ay ≠ 0
  trades1 : T.e1.Trades T.order1 T.pos1 t.amount1to2 t.amount2to1 (T.updates1 t) e1'
  trades2 : T.e2.Trades T.order2 T.pos2 t.amount2to1 t.amount1to2 (T.updates2 t) e2'
  token_lt : t.tokenId1to2 < 2 ^ lv.balanceLevels
  token_lt' : t.tokenId2to1 < 2 ^ lv.balanceLevels
  token_ne : t.tokenId1to2 ≠ t.tokenId2to1

namespace Trade.Checked

variable {T : Trade lv} {t : SpotTradeTx} {e1' e2' : Entry lv} (hT : T.Checked t e1' e2')
include hT

/-- What the tree of the first account represents after the trade. -/
theorem represents1 : e1'.balanceTree.Represents (Function.update
    (Function.update T.e1.balanceTree.getLeaf t.tokenId1to2
      (T.e1.balanceTree.getLeaf t.tokenId1to2 - t.amount1to2)) t.tokenId2to1
    (T.e1.balanceTree.getLeaf t.tokenId2to1 + t.amount2to1)) := by
  have hput := hT.sound1.putBalances (T.updates1 t)
    (by simp [updates1, hT.token_lt, hT.token_lt'])
  rw [hT.trades1.balanceTree_eq]
  simpa only [updates1, writes_cons, writes_nil, Entry.balance_of_keyed hT.keyed1] using hput

/-- The second account sells first. -/
theorem represents2 : e2'.balanceTree.Represents (Function.update
    (Function.update T.e2.balanceTree.getLeaf t.tokenId2to1
      (T.e2.balanceTree.getLeaf t.tokenId2to1 - t.amount2to1)) t.tokenId1to2
    (T.e2.balanceTree.getLeaf t.tokenId1to2 + t.amount1to2)) := by
  have hput := hT.sound2.putBalances (T.updates2 t)
    (by simp [updates2, hT.token_lt, hT.token_lt'])
  rw [hT.trades2.balanceTree_eq, Function.update_comm hT.token_ne.symm]
  simpa only [updates2, writes_cons, writes_nil, Entry.balance_of_keyed hT.keyed2] using hput

/-- An order that is traded has a slot in range. -/
theorem pos1_lt : T.pos1 < 2 ^ lv.orderLevels := hT.trades1.pos_lt hT.sound1.toCommitted

theorem pos2_lt : T.pos2 < 2 ^ lv.orderLevels := hT.trades2.pos_lt hT.sound2.toCommitted

theorem keyed1' : e1'.state.ay ≠ 0 := by
  rw [hT.trades1.state_eq]
  exact hT.keyed1

theorem keyed2' : e2'.state.ay ≠ 0 := by
  rw [hT.trades2.state_eq]
  exact hT.keyed2

/-- What the first account holds after a trade. -/
theorem getLeaf_sold1 :
    e1'.balanceTree.getLeaf t.tokenId1to2 = T.e1.balance t.tokenId1to2 - t.amount1to2 := by
  rw [hT.represents1.getLeaf hT.token_lt, Function.update_of_ne hT.token_ne, Function.update_self,
    Entry.balance_of_keyed hT.keyed1]

/-- The leaf of the token that the first account buys. -/
theorem getLeaf_bought1 :
    e1'.balanceTree.getLeaf t.tokenId2to1 = T.e1.balance t.tokenId2to1 + t.amount2to1 := by
  rw [hT.represents1.getLeaf hT.token_lt', Function.update_self, Entry.balance_of_keyed hT.keyed1]

/-- What the second account sells. -/
theorem getLeaf_sold2 :
    e2'.balanceTree.getLeaf t.tokenId2to1 = T.e2.balance t.tokenId2to1 - t.amount2to1 := by
  rw [hT.represents2.getLeaf hT.token_lt', Function.update_of_ne hT.token_ne.symm,
    Function.update_self, Entry.balance_of_keyed hT.keyed2]

variable {rawTx : RawTx} (hraw : T.Describes t s s' e1' e2' rawTx)
include hraw

theorem order1Pos_val : (rawTx.payload .order1Pos).val = T.pos1 := by
  obtain ⟨amounts1, amounts2, -, -, hpay⟩ := hraw.payload
  simp only [hpay, spotTradePayload, Fr.val_natCast hT.pos1_lt (lv.order_lt.trans (by decide))]

theorem order2Pos_val : (rawTx.payload .order2Pos).val = T.pos2 := by
  obtain ⟨amounts1, amounts2, -, -, hpay⟩ := hraw.payload
  simp only [hpay, spotTradePayload, Fr.val_natCast hT.pos2_lt (lv.order_lt.trans (by decide))]

/-- The first account after a trade is the one that has sold and bought. -/
theorem tradeNew1_account (htok : rawTx.token2to1 = t.tokenId2to1) :
    (rawTx.tradeNew1 (T.new1 t).hash).account = e1'.state := by
  obtain ⟨amounts1, amounts2, -, -, hpay⟩ := hraw.payload
  have hroot : (rawTx.tradeNew1 (T.new1 t).hash).balanceRoot = e1'.balanceTree.getRoot := by
    rw [Opening.balanceRoot_eq hT.represents1 hT.token_lt' htok hraw.balancePath3,
      hT.represents1.getRoot, Function.update_idem]
    simp only [RawTx.tradeNew1, hpay, spotTradePayload, Entry.balance_of_keyed hT.keyed1]
  have horder : (rawTx.tradeNew1 (T.new1 t).hash).orderRoot = e1'.state.orderRoot := by
    rw [RawTx.tradeNew1, RawTx.orderFold, hT.order1Pos_val hraw, hraw.orderPath0]
    exact hT.trades1.fold_order hT.sound1.toCommitted
  rw [Opening.account, hroot, horder, hT.trades1.state_eq]
  simp only [RawTx.tradeNew1, hpay, spotTradePayload]

/-- The second account before a trade is as it was. -/
theorem tradeOld2_account (htok : rawTx.token2to1 = t.tokenId2to1) :
    rawTx.tradeOld2.account = T.e2.state := by
  obtain ⟨amounts1, amounts2, -, -, hpay⟩ := hraw.payload
  have hroot : rawTx.tradeOld2.balanceRoot = T.e2.state.balanceRoot := by
    rw [Opening.balanceRoot_eq hT.sound2.represents hT.token_lt' htok hraw.balancePath2,
      hT.sound2.balanceRoot, hT.sound2.represents.getRoot]
    simp only [RawTx.tradeOld2, hpay, spotTradePayload, Entry.balance_of_keyed hT.keyed2,
      Function.update_eq_self]
  have horder : rawTx.tradeOld2.orderRoot = T.e2.state.orderRoot := by
    rw [RawTx.tradeOld2, RawTx.orderFold, hT.order2Pos_val hraw, hraw.oldOrder2Leaf_eq,
      hraw.orderPath1]
    exact hT.sound2.fold_orderLeaf hT.pos2_lt
  rw [Opening.account, hroot, horder]
  simp only [RawTx.tradeOld2, hpay, spotTradePayload]

/-- The updates of the balances of the two accounts meet in the same balance roots. -/
theorem balanceFold1 (htok : rawTx.token1to2 = t.tokenId1to2)
    (htok' : rawTx.token2to1 = t.tokenId2to1) :
    RawTx.balanceFold rawTx.balancePath0 rawTx.token1to2
        (rawTx.payload .balance1 - rawTx.payload .amount1) =
      RawTx.balanceFold rawTx.balancePath3 rawTx.token2to1
        (rawTx.payload .balance4 - rawTx.payload .amount2) := by
  obtain ⟨amounts1, amounts2, -, -, hpay⟩ := hraw.payload
  rw [RawTx.balanceFold, RawTx.balanceFold, htok, htok',
    Fr.val_natCast hT.token_lt (lv.balance_lt.trans (by decide)),
    Fr.val_natCast hT.token_lt' (lv.balance_lt.trans (by decide)), hraw.balancePath0,
    hraw.balancePath3]
  simp only [hpay, spotTradePayload, Entry.balance_of_keyed hT.keyed1, add_sub_cancel_right]
  exact hT.sound1.represents.fold_two hT.represents1 hT.token_lt hT.token_lt' hT.token_ne

/-- Without what was traded, both paths of the second account lead to the same root. -/
theorem balanceFold2 (htok : rawTx.token1to2 = t.tokenId1to2)
    (htok' : rawTx.token2to1 = t.tokenId2to1) :
    RawTx.balanceFold rawTx.balancePath2 rawTx.token2to1
        (rawTx.payload .balance3 - rawTx.payload .amount2) =
      RawTx.balanceFold rawTx.balancePath1 rawTx.token1to2
        (rawTx.payload .balance2 - rawTx.payload .amount1) := by
  obtain ⟨amounts1, amounts2, -, -, hpay⟩ := hraw.payload
  rw [RawTx.balanceFold, RawTx.balanceFold, htok, htok',
    Fr.val_natCast hT.token_lt (lv.balance_lt.trans (by decide)),
    Fr.val_natCast hT.token_lt' (lv.balance_lt.trans (by decide)), hraw.balancePath1,
    hraw.balancePath2]
  simp only [hpay, spotTradePayload, Entry.balance_of_keyed hT.keyed2, add_sub_cancel_right]
  exact hT.sound2.represents.fold_two hT.represents2 hT.token_lt' hT.token_lt hT.token_ne.symm

end Trade.Checked

/-- Between the states that show the ledger before and after it, a trade whose orders
    sell and buy its tokens is two updates of the accounts. -/
theorem Trade.Checked.tradesBetween {T : Trade lv} {t : SpotTradeTx} {e1' e2' : Entry lv}
    (hc : T.Checked t e1' e2') (h : Shows s L) (h1 : L t.order1AccountId = some T.e1)
    (h2 : L t.order2AccountId = some T.e2) (hne : t.order1AccountId ≠ t.order2AccountId)
    (h' : Shows s' ((L.set t.order1AccountId e1').set t.order2AccountId e2')) {rawTx : RawTx}
    (hraw : T.Describes t s s' e1' e2' rawTx) (hver : rawTx.OpeningsVerify)
    (hsell1 : T.order1.tokenSell = t.tokenId1to2) (hsell2 : T.order2.tokenSell = t.tokenId2to1)
    (hbuy2 : T.order2.tokenBuy = t.tokenId1to2) :
    rawTx.TradesBetween t (T.new1 t) (T.new2 t) T.pos1 T.pos2 s s' := by
  obtain ⟨amounts1, amounts2, -, -, hpay⟩ := hraw.payload
  have hentry1 := Ledger.entry_of_some h1
  have hentry2 := Ledger.entry_of_some h2
  have h1' : ((L.set t.order1AccountId e1').set t.order2AccountId e2') t.order1AccountId =
      some e1' := by rw [Ledger.set_of_ne _ _ hne, L.set_self]
  have h2' := Ledger.set_self (L.set t.order1AccountId e1') t.order2AccountId e2'
  have hentry1' := Ledger.entry_of_some h1'
  have hentry2' := Ledger.entry_of_some h2'
  -- The tokens of the orders are those of the trade.
  have htok : rawTx.token1to2 = (t.tokenId1to2 : Fr) := by
    simp only [RawTx.token1to2, hpay, spotTradePayload]
    exact hsell1
  have htok' : rawTx.token2to1 = (t.tokenId2to1 : Fr) := by
    simp only [RawTx.token2to1, hpay, spotTradePayload]
    exact hsell2
  have hacc1 : (rawTx.tradeNew1 (T.new1 t).hash).accountId = t.order1AccountId := by
    simp only [RawTx.tradeNew1, hpay, spotTradePayload]
  have hacc2 : rawTx.tradeOld2.accountId = t.order2AccountId := by
    simp only [RawTx.tradeOld2, hpay, spotTradePayload]
  have hnew := hc.tradeNew1_account hraw htok'
  have hold := hc.tradeOld2_account hraw htok'
  exact
    { before := hver.before (by rw [hpay]; exact Fr.one_ne_zero)
      balances1 := hc.balanceFold1 hraw htok htok'
      oldOrder1 := by
        rw [RawTx.orderFold, hc.order1Pos_val hraw, hraw.oldOrder1Leaf_eq, hraw.orderPath0,
          hraw.orderRoot0]
        exact hc.sound1.fold_orderLeaf hc.pos1_lt
      middle := by
        -- Both lead to the tree in which only the first account has changed.
        rw [Opening.root_eq h (h.lt h1) hacc1 hraw.accountPath0, hnew, ← Ledger.leaf_set,
          Opening.root_set h' rfl hacc2 hraw.accountPath1 ?_]
        rw [hold, Ledger.entry, Ledger.set_of_ne _ _ hne.symm, h2, Option.getD_some]
      balances2 := hc.balanceFold2 hraw htok htok'
      newOrder2 := by
        rw [RawTx.orderFold, hc.order2Pos_val hraw, hraw.orderPath1, hraw.orderRoot1]
        exact hc.trades2.fold_order hc.sound2.toCommitted
      after := hver.after (by rw [hpay]; exact Fr.one_ne_zero)
      rootBefore := hraw.rootBefore
      rootAfter := hraw.rootAfter
      amount1 := by simp only [hpay, spotTradePayload]
      amount2 := by simp only [hpay, spotTradePayload]
      token1to2 := htok
      token2to1 := htok'
      order1Pos := by simp only [hpay, spotTradePayload]
      order2Pos := by simp only [hpay, spotTradePayload]
      accountPath0 := hraw.accountPath0
      accountPath1 := hraw.accountPath1
      old1 := (hraw.opening1_of hsell1 hc.keyed1).ofState h hentry1 hc.sound1 (h.lt h1) hc.keyed1
        hc.token_lt
      new1 := by
        refine Opening.ofState h' hentry1' (h.lt h1) hc.keyed1' hacc1 htok' hnew ?_
        simp only [RawTx.tradeNew1, hpay, spotTradePayload, hc.getLeaf_bought1]
      old2 := by
        refine Opening.ofState h hentry2 (h.lt h2) hc.keyed2 hacc2 htok' hold ?_
        simp only [RawTx.tradeOld2, hpay, spotTradePayload, Entry.balance_of_keyed hc.keyed2]
      new2 := (hraw.opening2_of hbuy2 hc.trades2 hc.token_lt hc.token_ne).ofState h' hentry2'
        (hc.sound2.trades (by simp [Trade.updates2, hc.token_lt, hc.token_lt']) hc.trades2)
        (h.lt h2) hc.keyed2' hc.token_lt
      sold1 := by
        rw [h'.getTokenBalance_eq, hentry1', Entry.balance_of_keyed hc.keyed1', hc.getLeaf_sold1]
        simp only [hpay, spotTradePayload]
      bought1 := by
        rw [h.getTokenBalance_eq, hentry1]
        simp only [hpay, spotTradePayload, add_sub_cancel_right]
      sold2 := by
        rw [h'.getTokenBalance_eq, hentry2', Entry.balance_of_keyed hc.keyed2', hc.getLeaf_sold2]
        simp only [hpay, spotTradePayload]
      bought2 := by
        rw [h.getTokenBalance_eq, hentry2]
        simp only [hpay, spotTradePayload, add_sub_cancel_right]
      oldLeaf1 := ⟨_, h.lookup_orderTrees h1, hraw.oldOrder1Leaf_eq.trans
        (hc.sound1.orderTree.getLeaf hc.pos1_lt).symm⟩
      oldLeaf2 := ⟨_, h.lookup_orderTrees h2, hraw.oldOrder2Leaf_eq.trans
        (hc.sound2.orderTree.getLeaf hc.pos2_lt).symm⟩
      describes1 := hraw.newOrder1
      describes2 := hraw.newOrder2
      placed1 := by
        rw [h'.getAccountOrderByPos_eq h1', Entry.orderAt, hc.trades1.orders_eq,
          AList.lookup_insert]
        rfl
      placed2 := by
        rw [h'.getAccountOrderByPos_eq h2', Entry.orderAt, hc.trades2.orders_eq,
          AList.lookup_insert]
        rfl }

/-- A trade of two tokens, with the orders of its accounts. -/
theorem fullSpotTrade_twoStep (h : Shows s L) (hL : ∀ a, (L.entry a).Sound)
    {schedule : Shuffle Task} {tx : FullSpotTradeTx}
    (htoken : tx.trade.tokenId1to2 < 2 ^ lv.balanceLevels)
    (htoken' : tx.trade.tokenId2to1 < 2 ^ lv.balanceLevels)
    (hne : tx.trade.tokenId1to2 ≠ tx.trade.tokenId2to1) (hmatch : tx.OrdersMatch s)
    {rawTx : RawTx} (hr : s.fullSpotTrade schedule tx offset = .ok (rawTx, s')) :
    ∃ order1 order2 pos1 pos2, rawTx.TradesBetween tx.trade order1 order2 pos1 pos2 s s' := by
  have hver := fullSpotTrade_openings h hL htoken htoken' hne hmatch hr
  obtain ⟨T, e1', e2', hT, h1, h2, h', hraw⟩ := fullSpotTrade_spec h hr
  have hc : T.Checked tx.trade e1' e2' := ⟨Ledger.entry_of_some hT.entry1 ▸ hL _,
    Ledger.entry_of_some hT.entry2 ▸ hL _, hT.keyed1, hT.keyed2, h1, h2, htoken, htoken', hne⟩
  exact ⟨T.new1 tx.trade, T.new2 tx.trade, T.pos1, T.pos2,
    hc.tradesBetween h hT.entry1 hT.entry2 hT.ne h' hraw hver (hmatch.1 _ hT.taken1).1
      (hmatch.2 _ hT.taken2).1 (hmatch.2 _ hT.taken2).2⟩

/-- In every state reached by operations in range, the transfers between two accounts
    with keys and the trades of two tokens are two updates, one after the other, of the
    leaves of these accounts. -/
theorem two_step_updates {n : Node lv} {nTx persistEveryNBlock : ℕ} {blockOffset : Option ℕ}
    (hn : Exec.Reachable Node.step (fun _ op => op.InRange lv)
      (Node.new lv nTx blockOffset persistEveryNBlock) n) :
    (∀ schedule tx offset rawTx s', tx.tokenId < 2 ^ lv.balanceLevels → tx.fromId ≠ tx.toId →
      n.state.hasAccount tx.toId → tx.l2key = none →
      n.state.transfer schedule tx offset = .ok (rawTx, s') →
      rawTx.TransfersBetween tx n.state s') ∧
    ∀ schedule tx offset rawTx s', tx.trade.tokenId1to2 < 2 ^ lv.balanceLevels →
      tx.trade.tokenId2to1 < 2 ^ lv.balanceLevels → tx.trade.tokenId1to2 ≠ tx.trade.tokenId2to1 →
      tx.OrdersMatch n.state → n.state.fullSpotTrade schedule tx offset = .ok (rawTx, s') →
      ∃ order1 order2 pos1 pos2,
        rawTx.TradesBetween tx.trade order1 order2 pos1 pos2 n.state s' := by
  obtain ⟨L, h, hL⟩ := exists_sound (fun _ _ hop => hop) hn
  refine ⟨?_, ?_⟩
  · intro schedule tx offset rawTx s' htoken hne hto hkey hr
    exact transfer_twoStep h hL htoken hne hto hkey hr
  · intro schedule tx offset rawTx s' htoken htoken' hne hmatch hr
    exact fullSpotTrade_twoStep h hL htoken htoken' hne hmatch hr

end TwoStep

/-- Two accounts with keys, each holding one token. -/
def keyedOps : List Op :=
  [.keyUpdate ⟨0, ⟨1, 1, 5⟩⟩ none, .deposit ⟨1, 0, 50, some ⟨2, 0, 6⟩⟩ none,
    .deposit ⟨0, 1, 90, none⟩ none]

/-- A transfer of 20 of the token 1, from account 0 to account 1. -/
def sampleTransfer : TransferTx := ⟨0, 1, 1, 20, 0, .default, none⟩

/-- A trade of 5 of the token 1 for 6 of the token 0, with two new orders. -/
def sampleTrade : FullSpotTradeTx where
  trade := ⟨0, 1, 1, 0, 5, 6, 3, 4⟩
  makerOrder := some { Order.default with orderId := 3, tokenSell := 1, totalSell := 10 }
  takerOrder := some { Order.default with accountId := 1, orderId := 4, tokenBuy := 1, totalBuy := 5 }

attribute [local instance] FluidexCommon.sample in
/-- A transfer and a trade between two accounts with keys. -/
theorem two_step_updates_sample :
    ∃ n, Exec.run Node.step (Node.new Levels.small 2 none 9) keyedOps = .ok n ∧
      (∃ rawTx s', n.state.transfer .id sampleTransfer none = .ok (rawTx, s') ∧
        rawTx.TransfersBetween sampleTransfer n.state s') ∧
      ∃ rawTx s', n.state.fullSpotTrade .reverse sampleTrade none = .ok (rawTx, s') ∧
        ∃ order1 order2 pos1 pos2,
          rawTx.TradesBetween sampleTrade.trade order1 order2 pos1 pos2 n.state s' := by
  obtain ⟨⟨n, r, r'⟩, hn⟩ := Exec.exists_eq_ok (do
    let n ← Exec.run (Exec.guarded Node.step (.explicit "not allowed")
      fun _ op => op.InRange Levels.small) (Node.new Levels.small 2 none 9) keyedOps
    assert (n.state.hasAccount sampleTransfer.toId ∧ sampleTrade.OrdersMatch n.state) "premises"
    let r ← n.state.transfer .id sampleTransfer none
    let r' ← n.state.fullSpotTrade .reverse sampleTrade none
    pure (n, r, r')) (by decide +kernel)
  simp only [Exec.bind_eq_ok_iff, Exec.assert_eq_ok_iff, Exec.pure_eq_ok_iff, Prod.mk.injEq] at hn
  obtain ⟨_, hn, _, ⟨hto, hmatch⟩, ⟨rawTx, s'⟩, hr, ⟨rawTx', s''⟩, hr', rfl, -, -⟩ := hn
  obtain ⟨hn, hrun⟩ := Exec.Reachable.init.of_guarded hn
  obtain ⟨htransfer, htrade⟩ := two_step_updates hn
  exact ⟨_, hrun, ⟨_, _, hr, htransfer _ _ _ _ _ (by decide) (by decide) hto rfl hr⟩, _, _, hr',
    htrade _ _ _ _ _ (by decide) (by decide) (by decide) hmatch hr'⟩

end Rollup
