import Rollup.Encode
import Rollup.Global

/-!
# The manager

`state/manager_wrapper.rs`. A transaction is checked, applied to the state and
described by a raw transaction, which holds the openings of the leaves it reads
and writes, some of them taken before the update and some after it. The raw
transactions are buffered, and popped by blocks of `nTx`.

* The part of an operation that works on the state, under its lock, is a function
  of `GlobalState`, returning the raw transaction.
* A `Node` is a manager together with what it has produced; its steps (`Op`) are
  the calls of the functions of the manager.
-/

namespace Rollup

variable [FluidexCommon] {lv : Levels}

/-! ## Key updates and deposits -/

/-- The key changes between the two sides, and nothing else. -/
def keyUpdatePayload (tx : UpdateKeyTx) (fakeTokenId : ℕ) (acc : AccountState) (oldBalance : Fr) :
    Payload
  | .tokenId1 => fakeTokenId
  | .accountId1 => tx.accountId
  | .balance1 => oldBalance
  | .nonce1 => acc.nonce
  | .sign1 => acc.sign
  | .ay1 => acc.ay
  | .tokenId2 => fakeTokenId
  | .accountId2 => tx.accountId
  | .balance2 => oldBalance
  | .nonce2 => acc.nonce
  | .sign2 => tx.l2key.sign
  | .ay2 => tx.l2key.ay
  | .enableBalanceCheck1 => 1
  | .enableBalanceCheck2 => 1
  | .dstIsNew => 1
  | _ => 0

/-- The raw transaction of an update of one balance: its proofs are all those of before. -/
def singleRawTx (lv : Levels) (txType : TxType) (payload : Payload) (proof : BalanceProof)
    (acc : AccountState) (rootAfter : Fr) (offset : Option ℤ) : RawTx where
  txType := txType
  payload := payload
  balancePath0 := proof.balancePath
  balancePath1 := proof.balancePath
  balancePath2 := proof.balancePath
  balancePath3 := proof.balancePath
  orderPath0 := lv.trivialOrderPathElements
  orderPath1 := lv.trivialOrderPathElements
  orderRoot0 := acc.orderRoot
  orderRoot1 := acc.orderRoot
  accountPath0 := proof.accountPath
  accountPath1 := proof.accountPath
  rootBefore := proof.root
  rootAfter := rootAfter
  offset := offset

/-- Only for an account without a key; the balance that is opened is the one of token 0. -/
def GlobalState.keyUpdate (s : GlobalState lv) (tx : UpdateKeyTx) (offset : Option ℤ) :
    Except Panic (Except AnyhowError RawTx × GlobalState lv) :=
  if s.hasAccount tx.accountId then
    pure (.error ⟨"current update key can only set key for un-inited account"⟩, s)
  else do
    let fakeTokenId := 0
    let proof := s.balanceFullProof tx.accountId fakeTokenId
    let acc := s.getAccount tx.accountId
    let oldBalance ← s.getTokenBalance tx.accountId fakeTokenId
    let payload := keyUpdatePayload tx fakeTokenId acc oldBalance
    let s ← s.setTokenBalance tx.accountId fakeTokenId oldBalance
    let s ← s.setAccountL2Addr tx.accountId tx.l2key.sign tx.l2key.ay
    pure (.ok (singleRawTx lv .deposit payload proof acc s.root offset), s)

/-- Both sides are the account, before and after: the balance grows. -/
def depositPayload (tx : DepositTx) (acc : AccountState) (oldBalance : Fr) : Payload
  | .amount => tx.amount.toFr
  | .tokenId1 => tx.tokenId
  | .accountId1 => tx.accountId
  | .balance1 => oldBalance
  | .nonce1 => acc.nonce
  | .sign1 => acc.sign
  | .ay1 => acc.ay
  | .tokenId2 => tx.tokenId
  | .accountId2 => tx.accountId
  | .balance2 => oldBalance + tx.amount.toFr
  | .nonce2 => acc.nonce
  | .sign2 => (tx.l2key.map L2Key.sign).getD acc.sign
  | .ay2 => (tx.l2key.map L2Key.ay).getD acc.ay
  | .enableBalanceCheck1 => 1
  | .enableBalanceCheck2 => 1
  | .dstIsNew => if tx.l2key.isSome then 1 else 0
  | _ => 0

/-- The key of an account is set with its first deposit or transfer. -/
def GlobalState.setNewL2Addr (s : GlobalState lv) (accountId : ℕ) :
    Option L2Key → Except Panic (GlobalState lv)
  | some l2key => s.setAccountL2Addr accountId l2key.sign l2key.ay
  | none => pure s

/-- Refused unless exactly one of the transaction and the account has a key. -/
def GlobalState.deposit (s : GlobalState lv) (tx : DepositTx) (offset : Option ℤ) :
    Except Panic (Except AnyhowError RawTx × GlobalState lv) :=
  if tx.l2key.isSome ∧ s.hasAccount tx.accountId then
    pure (.error ⟨"deposit to new, but account already existed"⟩, s)
  else if ¬tx.l2key.isSome ∧ ¬s.hasAccount tx.accountId then
    pure (.error ⟨"deposit to old, but account not existed"⟩, s)
  else do
    let proof := s.balanceFullProof tx.accountId tx.tokenId
    let acc := s.getAccount tx.accountId
    let oldBalance ← s.getTokenBalance tx.accountId tx.tokenId
    let payload := depositPayload tx acc oldBalance
    let s ← s.setTokenBalance tx.accountId tx.tokenId (oldBalance + tx.amount.toFr)
    let s ← s.setNewL2Addr tx.accountId tx.l2key
    pure (.ok (singleRawTx lv .deposit payload proof acc s.root offset), s)

/-! ## Transfers and withdrawals -/

/-- Side 1 is the sender before, side 2 the receiver after. -/
def transferPayload (tx : TransferTx) (fromAccount toAccount : AccountState)
    (fromOldBalance toNewBalance : Fr) : Payload
  | .accountId1 => tx.fromId
  | .accountId2 => tx.toId
  | .tokenId1 => tx.tokenId
  | .tokenId2 => tx.tokenId
  | .amount => tx.amount.toFr
  | .balance1 => fromOldBalance
  | .nonce1 => fromAccount.nonce
  | .ay1 => fromAccount.ay
  | .sign1 => fromAccount.sign
  | .balance2 => toNewBalance
  | .nonce2 => toAccount.nonce
  | .ay2 => (tx.l2key.map L2Key.ay).getD toAccount.ay
  | .sign2 => (tx.l2key.map L2Key.sign).getD toAccount.sign
  | .sigL2Hash1 => tx.sig.hash
  | .s1 => tx.sig.s
  | .r8x1 => tx.sig.r8x
  | .r8y1 => tx.sig.r8y
  | .enableBalanceCheck1 => 1
  | .enableBalanceCheck2 => 1
  | .enableSigCheck1 => 1
  | .dstIsNew => if tx.l2key.isSome then 1 else 0
  | _ => 0

/-- Both balances are read before either is written. -/
def GlobalState.transfer (s : GlobalState lv) (schedule : Shuffle Task) (tx : TransferTx)
    (offset : Option ℤ) : Except Panic (RawTx × GlobalState lv) := do
  Exec.assert (.explicit "invalid account") (s.hasAccount tx.fromId)
  let proofFrom := s.balanceFullProof tx.fromId tx.tokenId
  let fromAccount := s.getAccount tx.fromId
  let toAccount := s.getAccount tx.toId
  let fromOldBalance ← s.getTokenBalance tx.fromId tx.tokenId
  let toOldBalance ← s.getTokenBalance tx.toId tx.tokenId
  assert (tx.amount.toFr.val ≤ fromOldBalance.val) "Transfer balance not enough"
  let fromNewBalance := fromOldBalance - tx.amount.toFr
  let toNewBalance := toOldBalance + tx.amount.toFr
  let payload := transferPayload tx fromAccount toAccount fromOldBalance toNewBalance
  let acc1Updates : AccountUpdates :=
    { accountId := tx.fromId
      balanceUpdates := [(tx.tokenId, fromNewBalance)]
      orderUpdates := []
      newNonce := some (s.getAccountNonce tx.fromId + 1) }
  let acc2Updates : AccountUpdates :=
    { accountId := tx.toId
      balanceUpdates := [(tx.tokenId, toNewBalance)]
      orderUpdates := []
      newNonce := none }
  let s ← s.batchUpdate schedule [acc1Updates, acc2Updates] true
  let proofTo := s.balanceFullProof tx.toId tx.tokenId
  let s ← s.setNewL2Addr tx.toId tx.l2key
  let rawTx : RawTx :=
    { txType := .transfer
      payload := payload
      balancePath0 := proofFrom.balancePath
      balancePath1 := proofTo.balancePath
      balancePath2 := proofFrom.balancePath
      balancePath3 := proofTo.balancePath
      orderPath0 := lv.trivialOrderPathElements
      orderPath1 := lv.trivialOrderPathElements
      orderRoot0 := fromAccount.orderRoot
      orderRoot1 := toAccount.orderRoot
      accountPath0 := proofFrom.accountPath
      accountPath1 := proofTo.accountPath
      rootBefore := proofFrom.root
      rootAfter := s.root
      offset := offset }
  pure (rawTx, s)

/-- Both sides are the account, before and after: the balance shrinks, and the nonce grows. -/
def withdrawPayload (tx : WithdrawTx) (acc : AccountState) (oldBalance : Fr) : Payload
  | .amount => tx.amount.toFr
  | .tokenId1 => tx.tokenId
  | .accountId1 => tx.accountId
  | .balance1 => oldBalance
  | .nonce1 => acc.nonce
  | .sign1 => acc.sign
  | .ay1 => acc.ay
  | .tokenId2 => tx.tokenId
  | .accountId2 => tx.accountId
  | .balance2 => oldBalance - tx.amount.toFr
  | .nonce2 => acc.nonce + 1
  | .sign2 => acc.sign
  | .ay2 => acc.ay
  | .enableBalanceCheck1 => 1
  | .enableBalanceCheck2 => 1
  | .enableSigCheck1 => 1
  | .sigL2Hash1 => tx.sig.hash
  | .s1 => tx.sig.s
  | .r8x1 => tx.sig.r8x
  | .r8y1 => tx.sig.r8y
  | _ => 0

/-- The balance is not compared with the amount. -/
def GlobalState.withdraw (s : GlobalState lv) (tx : WithdrawTx) (offset : Option ℤ) :
    Except Panic (RawTx × GlobalState lv) := do
  let proof := s.balanceFullProof tx.accountId tx.tokenId
  let acc := s.getAccount tx.accountId
  let oldBalance ← s.getTokenBalance tx.accountId tx.tokenId
  let payload := withdrawPayload tx acc oldBalance
  let s ← s.setTokenBalance tx.accountId tx.tokenId (oldBalance - tx.amount.toFr)
  let s ← s.increaseNonce tx.accountId
  pure (singleRawTx lv .withdraw payload proof acc s.root offset, s)

/-! ## Trades -/

/-- An order of a trade: a new one if it is supplied, else one that is stored. -/
def GlobalState.takeOrder (s : GlobalState lv) (supplied : Option Order) (accountId orderId : ℕ)
    (name : String) : Except Panic Order :=
  match supplied with
  | some order => do
    assert (¬s.hasOrder order.accountId order.orderId) "!state.has_order(account_id, order_id)"
    assert (order.filledBuy = 0) "filled_buy == 0"
    assert (order.filledSell = 0) "filled_sell == 0"
    pure order
  | none => do
    assert (s.hasOrder accountId orderId) s!"unknown {name} {orderId}"
    s.getAccountOrderById accountId orderId

/-- An order of a trade before the trade, its position and what is there. -/
structure PlacedOrder where
  order : Order
  pos : ℕ
  oldInTree : Order

/-- Step 3 of `full_spot_trade`. -/
def GlobalState.placeOrders (s : GlobalState lv) (fullTx : FullSpotTradeTx) :
    Except Panic ((PlacedOrder × PlacedOrder) × GlobalState lv) := do
  let trade := fullTx.trade
  let order1 ← s.takeOrder fullTx.makerOrder trade.order1AccountId trade.order1Id "order1"
  let order2 ← s.takeOrder fullTx.takerOrder trade.order2AccountId trade.order2Id "order2"
  let ((order1Pos, oldOrder1InTree), s) ← s.findOrInsertOrder trade.order1AccountId order1
  let ((order2Pos, oldOrder2InTree), s) ← s.findOrInsertOrder trade.order2AccountId order2
  pure ((⟨order1, order1Pos, oldOrder1InTree⟩, ⟨order2, order2Pos, oldOrder2InTree⟩), s)

/-- The totals of an order, compressed. -/
def compressTotals (order : Order) : Except Panic (Fr × Fr) := do
  let amountSell ← unwrap (compressFr order.totalSell).toOption
  let amountBuy ← unwrap (compressFr order.totalBuy).toOption
  pure (amountSell, amountBuy)

/-- The balances of a trade: those an account sells from before it, those it buys into after. -/
structure TradeBalances where
  acc1Sell : Fr
  acc1BuyNew : Fr
  acc2Sell : Fr
  acc2BuyNew : Fr

/-- Every order comes with what its slot held before and with its fills after. -/
def spotTradePayload (trade : SpotTradeTx) (account1 account2 : AccountState)
    (placed1 placed2 : PlacedOrder) (balances : TradeBalances) (order1 order2 : Order)
    (amounts1 amounts2 : Fr × Fr) : Payload
  | .accountId1 => trade.order1AccountId
  | .accountId2 => trade.order2AccountId
  | .sign1 => account1.sign
  | .sign2 => account2.sign
  | .ay1 => account1.ay
  | .ay2 => account2.ay
  | .nonce1 => account1.nonce
  | .nonce2 => account2.nonce
  | .s1 => placed1.order.sig.s
  | .r8x1 => placed1.order.sig.r8x
  | .r8y1 => placed1.order.sig.r8y
  | .sigL2Hash1 => placed1.order.sig.hash
  | .s2 => placed2.order.sig.s
  | .r8x2 => placed2.order.sig.r8x
  | .r8y2 => placed2.order.sig.r8y
  | .sigL2Hash2 => placed2.order.sig.hash
  | .oldOrder1Id => placed1.oldInTree.orderId
  | .oldOrder1TokenSell => placed1.oldInTree.tokenSell
  | .oldOrder1FilledSell => placed1.oldInTree.filledSell
  | .oldOrder1AmountSell => placed1.oldInTree.totalSell
  | .oldOrder1TokenBuy => placed1.oldInTree.tokenBuy
  | .oldOrder1FilledBuy => placed1.oldInTree.filledBuy
  | .oldOrder1AmountBuy => placed1.oldInTree.totalBuy
  | .oldOrder2Id => placed2.oldInTree.orderId
  | .oldOrder2TokenSell => placed2.oldInTree.tokenSell
  | .oldOrder2FilledSell => placed2.oldInTree.filledSell
  | .oldOrder2AmountSell => placed2.oldInTree.totalSell
  | .oldOrder2TokenBuy => placed2.oldInTree.tokenBuy
  | .oldOrder2FilledBuy => placed2.oldInTree.filledBuy
  | .oldOrder2AmountBuy => placed2.oldInTree.totalBuy
  | .amount1 => trade.amount1to2
  | .amount2 => trade.amount2to1
  | .order1Pos => placed1.pos
  | .order2Pos => placed2.pos
  | .balance1 => balances.acc1Sell
  | .balance2 => balances.acc2BuyNew
  | .balance3 => balances.acc2Sell
  | .balance4 => balances.acc1BuyNew
  | .enableBalanceCheck1 => 1
  | .enableBalanceCheck2 => 1
  | .enableSigCheck1 => 1
  | .enableSigCheck2 => 1
  | .newOrder1Id => order1.orderId
  | .newOrder1TokenSell => order1.tokenSell
  | .newOrder1FilledSell => order1.filledSell
  | .newOrder1AmountSell => amounts1.1
  | .newOrder1TokenBuy => order1.tokenBuy
  | .newOrder1FilledBuy => order1.filledBuy
  | .newOrder1AmountBuy => amounts1.2
  | .newOrder2Id => order2.orderId
  | .newOrder2TokenSell => order2.tokenSell
  | .newOrder2FilledSell => order2.filledSell
  | .newOrder2AmountSell => amounts2.1
  | .newOrder2TokenBuy => order2.tokenBuy
  | .newOrder2FilledBuy => order2.filledBuy
  | .newOrder2AmountBuy => amounts2.2
  | .tokenId1 => order1.tokenSell
  | .tokenId2 => order2.tokenBuy
  | _ => 0

/-- Order 1 is the maker's, order 2 the taker's. -/
def GlobalState.fullSpotTrade (s : GlobalState lv) (schedule : Shuffle Task)
    (fullTx : FullSpotTradeTx) (offset : Option ℤ) : Except Panic (RawTx × GlobalState lv) := do
  let trade := fullTx.trade
  let accId1 := trade.order1AccountId
  let accId2 := trade.order2AccountId
  Exec.assert (.explicit "self trade no allowed") (accId1 ≠ accId2)
  assert (s.hasAccount accId1) "state.has_account(acc_id1)"
  assert (s.hasAccount accId2) "state.has_account(acc_id2)"
  let oldRoot := s.root
  let proofOrder1Seller := s.balanceFullProof accId1 trade.tokenId1to2
  let proofOrder2Seller := s.balanceFullProof accId2 trade.tokenId2to1
  let account1 := s.getAccount accId1
  let account2 := s.getAccount accId2
  let ((placed1, placed2), s) ← s.placeOrders fullTx
  let acc1BalanceSell ← s.getTokenBalance accId1 trade.tokenId1to2
  assert (trade.amount1to2.val < acc1BalanceSell.val) "balance_1to2"
  let acc1BalanceBuy ← s.getTokenBalance accId1 trade.tokenId2to1
  let acc2BalanceSell ← s.getTokenBalance accId2 trade.tokenId2to1
  assert (trade.amount2to1.val < acc2BalanceSell.val) "balance_2to1"
  let acc2BalanceBuy ← s.getTokenBalance accId2 trade.tokenId1to2
  let balances : TradeBalances :=
    { acc1Sell := acc1BalanceSell
      acc1BuyNew := acc1BalanceBuy + trade.amount2to1
      acc2Sell := acc2BalanceSell
      acc2BuyNew := acc2BalanceBuy + trade.amount1to2 }
  let orderProof1 ← s.orderProof accId1 placed1.pos
  let orderProof2 ← s.orderProof accId2 placed2.pos
  let order1 := placed1.order.tradeWith trade.amount1to2 trade.amount2to1
  let s ← s.updateOrderState accId1 placed1.pos order1
  let order2 := placed2.order.tradeWith trade.amount2to1 trade.amount1to2
  let s ← s.updateOrderState accId2 placed2.pos order2
  let acc1Updates : AccountUpdates :=
    { accountId := accId1
      balanceUpdates := [(trade.tokenId1to2, balances.acc1Sell - trade.amount1to2),
        (trade.tokenId2to1, balances.acc1BuyNew)]
      orderUpdates := [(placed1.pos, order1.hash)]
      newNonce := none }
  let acc2Updates : AccountUpdates :=
    { accountId := accId2
      balanceUpdates := [(trade.tokenId1to2, balances.acc2BuyNew),
        (trade.tokenId2to1, balances.acc2Sell - trade.amount2to1)]
      orderUpdates := [(placed2.pos, order2.hash)]
      newNonce := none }
  let s ← s.batchUpdate schedule [acc1Updates, acc2Updates] true
  let amounts1 ← compressTotals order1
  let amounts2 ← compressTotals order2
  let payload := spotTradePayload trade account1 account2 placed1 placed2 balances order1 order2
    amounts1 amounts2
  let rawTx : RawTx :=
    { txType := .spotTrade
      payload := payload
      balancePath0 := proofOrder1Seller.balancePath
      balancePath1 := (s.balanceProof accId2 trade.tokenId1to2).pathElements
      balancePath2 := proofOrder2Seller.balancePath
      balancePath3 := (s.balanceProof accId1 trade.tokenId2to1).pathElements
      orderPath0 := orderProof1.pathElements
      orderPath1 := orderProof2.pathElements
      orderRoot0 := account1.orderRoot
      orderRoot1 := (s.getAccount accId2).orderRoot
      accountPath0 := proofOrder1Seller.accountPath
      accountPath1 := (s.accountProof accId2).pathElements
      rootBefore := oldRoot
      rootAfter := s.root
      offset := offset }
  pure (rawTx, s)

/-! ## Blocks -/

/-- The raw transaction of `nop`. -/
def GlobalState.nopTx (s : GlobalState lv) : RawTx :=
  let trivialProof := s.trivialStateProof
  { txType := .nop
    payload := fun _ => 0
    balancePath0 := trivialProof.balancePath
    balancePath1 := trivialProof.balancePath
    balancePath2 := trivialProof.balancePath
    balancePath3 := trivialProof.balancePath
    orderPath0 := lv.trivialOrderPathElements
    orderPath1 := lv.trivialOrderPathElements
    orderRoot0 := 0
    orderRoot1 := 0
    accountPath0 := trivialProof.accountPath
    accountPath1 := trivialProof.accountPath
    rootBefore := s.root
    rootAfter := s.root
    offset := none }

/-- The state, with the transactions that wait for a block and the number of the next one. -/
structure ManagerWrapper (lv : Levels) where
  state : GlobalState lv
  nTx : ℕ
  bufferedTxs : List RawTx
  blockGenerateNum : ℕ
  txDataEncoder : TxDataEncoder

/-- What `persist` writes to a new database. -/
structure Snapshot (lv : Levels) where
  blockOffset : ℕ
  kafkaOffset : ℤ
  state : GlobalState lv

/-- The loop of `forge_with_txs`: encoding the transactions, an error being a panic. -/
def encodeAll : List RawTx → TxDataEncoder → Except Panic TxDataEncoder
  | [], encoder => pure encoder
  | tx :: txs, encoder => do
    let (result, encoder) ← (encodeRawtxToPubdata tx).run.run encoder
    let _ ← unwrap result.toOption
    encodeAll txs encoder

/-- A block of the transactions, with the hash of their public data. -/
def forgeWithTxs (blockId : ℕ) (txs : List RawTx) (encoder : TxDataEncoder) :
    Except Panic (L2Block × TxDataEncoder) := do
  let encoder ← encodeAll txs encoder
  let ((txdataHash, publicData), encoder) := encoder.finishWithRaw
  let oldRoot ← unwrap (txs.map RawTx.rootBefore).head?
  let newRoot ← unwrap (txs.map RawTx.rootAfter).getLast?
  let detail : L2BlockDetail :=
    { oldRoot := oldRoot
      newRoot := newRoot
      txdataHash := txdataHash
      txsType := txs.map RawTx.txType
      encodedTxs := txs.map RawTx.payload
      balancePathElements := txs.map fun tx =>
        [tx.balancePath0, tx.balancePath1, tx.balancePath2, tx.balancePath3]
      orderPathElements := txs.map fun tx => [tx.orderPath0, tx.orderPath1]
      accountPathElements := txs.map fun tx => [tx.accountPath0, tx.accountPath1]
      orderRoots := txs.map fun tx => [tx.orderRoot0, tx.orderRoot1]
      oldAccountRoots := txs.map RawTx.rootBefore
      newAccountRoots := txs.map RawTx.rootAfter }
  pure (⟨blockId, detail, publicData⟩, encoder)

namespace ManagerWrapper

/-- A manager with an empty buffer; the blocks are counted from `blockOffset`. -/
def new (state : GlobalState lv) (nTx : ℕ) (blockOffset : Option ℕ) : ManagerWrapper lv where
  state := state
  nTx := nTx
  bufferedTxs := []
  blockGenerateNum := blockOffset.getD 0
  txDataEncoder := TxDataEncoder.new lv.balanceLevels lv.orderLevels lv.accountLevels

/-- The buffer grows at its end; no block is forged. -/
def addRawTx (m : ManagerWrapper lv) (rawTx : RawTx) : ManagerWrapper lv :=
  { m with bufferedTxs := m.bufferedTxs ++ [rawTx] }

/-- Adding a transaction that changes nothing. -/
def nop (m : ManagerWrapper lv) : ManagerWrapper lv := m.addRawTx m.state.nopTx

/-- The loop of `flushWithNop`; `fuel` bounds its length. -/
def flushLoop (m : ManagerWrapper lv) : (fuel : ℕ) → ManagerWrapper lv
  | 0 => m
  | fuel + 1 => if m.bufferedTxs.length % m.nTx ≠ 0 then m.nop.flushLoop fuel else m

/-- Filling the last block with `nop`s. -/
def flushWithNop (m : ManagerWrapper lv) : Except Panic (ManagerWrapper lv) := do
  Exec.assert .divisionByZero (m.nTx ≠ 0)
  pure (m.flushLoop m.nTx)

/-- The transactions of a block, from the position `i` of the buffer on. -/
def blockTxs (m : ManagerWrapper lv) (i : ℕ) : List RawTx := (m.bufferedTxs.drop i).take m.nTx

/-- The last offset of the block is recorded; there must be one. -/
def persist (m : ManagerWrapper lv) (i : ℕ) : Except Panic (Snapshot lv) := do
  let kafkaOffset ← unwrap ((m.blockTxs i).reverse.filterMap RawTx.offset).head?
  pure ⟨m.blockGenerateNum, kafkaOffset, m.state⟩

/-- Persisting every `persistEveryNBlock` blocks. -/
def persistEvery (m : ManagerWrapper lv) (persistEveryNBlock i : ℕ) :
    Except Panic (List (Snapshot lv)) := do
  Exec.assert .divisionByZero (persistEveryNBlock ≠ 0)
  if m.blockGenerateNum % persistEveryNBlock = 0 then List.singleton <$> m.persist i else pure []

/-- The manager after forging a block. -/
def nextBlock (m : ManagerWrapper lv) (encoder : TxDataEncoder) : ManagerWrapper lv :=
  { m with blockGenerateNum := m.blockGenerateNum + 1, txDataEncoder := encoder }

/-- The loop of `popAllBlocks`, with the final value of `i`; `fuel` bounds its length. -/
def popLoop (m : ManagerWrapper lv) (persistEveryNBlock i : ℕ) : (fuel : ℕ) →
    Except Panic ((List L2Block × List (Snapshot lv) × ℕ) × ManagerWrapper lv)
  | 0 => pure (([], [], i), m)
  | fuel + 1 =>
    if i + m.nTx ≤ m.bufferedTxs.length then do
      let (block, encoder) ← forgeWithTxs m.blockGenerateNum (m.blockTxs i) m.txDataEncoder
      let m := m.nextBlock encoder
      let snapshot ← m.persistEvery persistEveryNBlock i
      let ((blocks, snapshots, i), m) ← m.popLoop persistEveryNBlock (i + m.nTx) fuel
      pure ((block :: blocks, snapshot ++ snapshots, i), m)
    else pure (([], [], i), m)

/-- The transactions of the blocks leave the buffer, the others stay. -/
def popAllBlocks (m : ManagerWrapper lv) (persistEveryNBlock : ℕ) :
    Except Panic ((List L2Block × List (Snapshot lv)) × ManagerWrapper lv) := do
  let ((blocks, snapshots, i), m) ← m.popLoop persistEveryNBlock 0 (m.bufferedTxs.length + 1)
  pure ((blocks, snapshots), { m with bufferedTxs := m.bufferedTxs.drop i })

end ManagerWrapper

/-! ## The node -/

/-- The calls of the functions of the manager. A schedule is that of the parallel
    tasks of the call. -/
inductive Op where
  | createNewAccount (nextOrderId : ℕ)
  | setAccountL2Addr (accountId : ℕ) (sign ay : Fr)
  | setAccountNonce (accountId : ℕ) (nonce : Fr)
  | setAccountOrder (accountId orderPos : ℕ) (order : Order)
  | setTokenBalance (accountId tokenId : ℕ) (balance : Fr)
  | keyUpdate (tx : UpdateKeyTx) (offset : Option ℤ)
  | deposit (tx : DepositTx) (offset : Option ℤ)
  | transfer (schedule : Shuffle Task) (tx : TransferTx) (offset : Option ℤ)
  | withdraw (tx : WithdrawTx) (offset : Option ℤ)
  | fullSpotTrade (schedule : Shuffle Task) (tx : FullSpotTradeTx) (offset : Option ℤ)
  | cancelOrder (accountId orderId : ℕ)
  | nop
  | flushWithNop
  | popAllBlocks

/-- What an operation of the manager does to the state, and the raw transaction it emits. -/
def GlobalState.apply (s : GlobalState lv) : Op → Except Panic (Option RawTx × GlobalState lv)
  | .createNewAccount nextOrderId => do
    let (_, s) ← s.createNewAccount nextOrderId
    pure (none, s)
  | .setAccountL2Addr accountId sign ay => do
    let s ← s.setAccountL2Addr accountId sign ay
    pure (none, s)
  | .setAccountNonce accountId nonce => do
    let s ← s.setAccountNonce accountId nonce
    pure (none, s)
  | .setAccountOrder accountId orderPos order => do
    let s ← s.setAccountOrder accountId orderPos order
    pure (none, s)
  | .setTokenBalance accountId tokenId balance => do
    let s ← s.setTokenBalance accountId tokenId balance
    pure (none, s)
  | .keyUpdate tx offset => do
    let (result, s) ← s.keyUpdate tx offset
    pure (result.toOption, s)
  | .deposit tx offset => do
    let (result, s) ← s.deposit tx offset
    pure (result.toOption, s)
  | .transfer schedule tx offset => do
    let (rawTx, s) ← s.transfer schedule tx offset
    pure (some rawTx, s)
  | .withdraw tx offset => do
    let (rawTx, s) ← s.withdraw tx offset
    pure (some rawTx, s)
  | .fullSpotTrade schedule tx offset => do
    let (rawTx, s) ← s.fullSpotTrade schedule tx offset
    pure (some rawTx, s)
  | .cancelOrder accountId orderId => do
    let s ← s.cancelOrder accountId orderId
    pure (none, s)
  | .nop => pure (some s.nopTx, s)
  | .flushWithNop => pure (none, s)
  | .popAllBlocks => pure (none, s)

/-- A manager, the raw transactions it has emitted so far, in order, the blocks it
    has returned and the snapshots it has written. -/
structure Node (lv : Levels) where
  manager : ManagerWrapper lv
  persistEveryNBlock : ℕ
  emitted : List RawTx
  blocks : List L2Block
  snapshots : List (Snapshot lv)

namespace Node

/-- A new manager over a new state. -/
def new (lv : Levels) (nTx : ℕ) (blockOffset : Option ℕ) (persistEveryNBlock : ℕ) : Node lv where
  manager := ManagerWrapper.new (GlobalState.new lv) nTx blockOffset
  persistEveryNBlock := persistEveryNBlock
  emitted := []
  blocks := []
  snapshots := []

/-- The state of the manager. -/
abbrev state (n : Node lv) : GlobalState lv := n.manager.state

/-- A raw transaction is emitted by being added to the buffer. -/
def emit (n : Node lv) : Option RawTx → Node lv
  | some rawTx => { n with manager := n.manager.addRawTx rawTx, emitted := n.emitted ++ [rawTx] }
  | none => n

/-- A call of the manager, with what it emits, pops and persists. -/
def step (n : Node lv) (op : Op) : Except Panic (Node lv) :=
  match op with
  | .flushWithNop => do
    let m ← n.manager.flushWithNop
    pure { n with
      manager := m
      emitted := n.emitted ++ m.bufferedTxs.drop n.manager.bufferedTxs.length }
  | .popAllBlocks => do
    let ((blocks, snapshots), m) ← n.manager.popAllBlocks n.persistEveryNBlock
    pure { n with
      manager := m
      blocks := n.blocks ++ blocks
      snapshots := n.snapshots ++ snapshots }
  | op => do
    let (rawTx, s) ← n.state.apply op
    pure ({ n with manager := { n.manager with state := s } }.emit rawTx)

end Node

end Rollup
