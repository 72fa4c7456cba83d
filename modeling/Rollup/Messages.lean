import Rollup.Msg

/-!
# The loop of the processor

`msg/` and `run_msg_processor`: the handlers of the messages of the exchange, and the loop
that receives them.

* `DecimalExt` and `UserKey` are what else the handlers call in the crates of the decimals,
  of the signatures and of the hexadecimal strings.
* What a handler only reads is read from the global state; the handlers step the node.
* The loop receives a message, or nothing for 120 seconds: it then fills the block that has
  been begun. In both cases it pops the blocks that are complete.
* The fields of the messages that no handler reads are left out.
-/

namespace Rollup

/-! ## Decimals and keys -/

/-- More of `rust_decimal::Decimal`, and of `FrExt`. -/
class DecimalExt [RustDecimal] where
  /-- `Decimal::zero` -/
  zero : Decimal
  isZero : Decimal → Bool
  eq : Decimal → Decimal → Bool
  ge : Decimal → Decimal → Bool
  /-- A product may overflow. -/
  mul : Decimal → Decimal → Except Panic Decimal
  /-- `FrExt::to_decimal`: a number of units of `10 ^ -prec`. -/
  toDecimal : Fr → (prec : ℕ) → Except Panic Decimal

/-- What is called to read the keys of a new user. -/
class UserKey [Babyjubjub] where
  /-- `hex::decode` -/
  hexDecode : String → Except AnyhowError (List UInt8)
  /-- `babyjubjub_rs::decompress_point` -/
  decompressPoint : Vector UInt8 32 → Except AnyhowError Babyjubjub.Point
  /-- `Point::y` -/
  y : Babyjubjub.Point → Fr
  /-- `Fr::from_str` -/
  frFromStr : String → Except Panic Fr

/-- Decimals of any precision, to run the model with. -/
@[reducible] def DecimalExt.sample : @DecimalExt RustDecimal.sample :=
  letI := RustDecimal.sample
  { zero := (0 : ℚ)
    isZero := fun d : ℚ => d = 0
    eq := fun c d : ℚ => c = d
    ge := fun c d : ℚ => d ≤ c
    mul := fun c d : ℚ => .ok (c * d)
    toDecimal := fun x prec => .ok ((x.val : ℚ) / 10 ^ prec) }

/-- A key is the number whose digits are the characters of the string. -/
@[reducible] def UserKey.sample : @UserKey Babyjubjub.sample :=
  letI := Babyjubjub.sample
  { hexDecode := fun s => .ok (s.toList.map fun c => UInt8.ofNat c.toNat)
    decompressPoint := fun bytes =>
      .ok ((bytes.toList.foldr (fun b acc => b.toNat + 256 * acc) 0 : ℕ) : ℤ)
    y := fun point : ℤ => point
    frFromStr := fun s => .ok s.length }

/-! ## Messages -/

namespace Messages

/-- Whether an order was there first. -/
inductive MarketRole where
  | maker
  | taker

/-- An ask sells the base, a bid buys it. -/
inductive OrderSide where
  | ask
  | bid

/-- What has happened to an order on the exchange. -/
inductive OrderEventType where
  | put
  | update
  | finish
  | expired

/-- An order of the exchange; its id is a `u64`. -/
structure Order [RustDecimal] where
  id : ℕ
  market : String
  side : OrderSide
  user : ℕ
  price : Decimal
  amount : Decimal
  finishedBase : Decimal
  finishedQuote : Decimal
  signature : Vector UInt8 64

end Messages

open Messages (MarketRole OrderEventType)

/-- A new user, with both keys in hexadecimal. -/
structure UserMessage where
  userId : ℕ
  l1Address : String
  l2Pubkey : String

/-- A deposit, with the balance the exchange has after it. -/
structure DepositMessage [RustDecimal] where
  userId : ℕ
  asset : String
  /-- What is added to the balance. -/
  change : Decimal
  /-- The balance after the deposit. -/
  balance : Decimal

/-- An event of an order. -/
structure OrderMessage [RustDecimal] where
  event : OrderEventType
  order : Messages.Order

/-- What the exchange says of the fills of an order. -/
structure VerboseOrderState [RustDecimal] where
  userId : ℕ
  orderId : ℕ
  orderSide : Messages.OrderSide
  finishedBase : Decimal
  finishedQuote : Decimal

/-- What the exchange says of a balance. -/
structure VerboseBalanceState [RustDecimal] where
  userId : ℕ
  asset : String
  balance : Decimal

/-- What the exchange says of the state, before or after a trade. -/
structure VerboseTradeState [RustDecimal] where
  orderStates : List VerboseOrderState
  balanceStates : List VerboseBalanceState

/-- A trade of the exchange, of an ask with a bid; the new orders come with it. -/
structure TradeMessage [RustDecimal] where
  market : String
  amount : Decimal
  quoteAmount : Decimal
  askUserId : ℕ
  askOrderId : ℕ
  askRole : MarketRole
  bidUserId : ℕ
  bidOrderId : ℕ
  bidRole : MarketRole
  bidOrder : Option Messages.Order
  askOrder : Option Messages.Order
  stateBefore : Option VerboseTradeState
  stateAfter : Option VerboseTradeState

/-- A transfer between two users, signed by the sender. -/
structure TransferMessage [RustDecimal] where
  userFrom : ℕ
  userTo : ℕ
  asset : String
  amount : Decimal
  signature : Vector UInt8 64

/-- A message of any of the six kinds. -/
inductive WrappedMessage [RustDecimal] where
  | deposit (message : Message DepositMessage)
  | order (message : Message OrderMessage)
  | trade (message : Message TradeMessage)
  | transfer (message : Message TransferMessage)
  | user (message : Message UserMessage)
  | withdraw (message : Message WithdrawMessage)

variable [FluidexCommon] [RustDecimal] [Babyjubjub] [DecimalExt] [UserKey] {lv : Levels}

open RustDecimal DecimalExt

/-! ## Tokens and orders -/

/-- The names of the base and of the quote, before and after the first underscores. -/
def TokenPair.from (origin : String) : Except Panic (String × String) :=
  match origin.toList.splitOn '_' with
  | asset1 :: asset2 :: _ => .ok (String.ofList asset1, String.ofList asset2)
  | _ => .error .unwrap

/-- The ids of the base and of the quote. -/
def TokenIdPair.from (origin : String) : Except Panic (ℕ × ℕ) := do
  let (asset1, asset2) ← TokenPair.from origin
  let baseTokenId ← getTokenIdByName asset1
  let quoteTokenId ← getTokenIdByName asset2
  pure (baseTokenId, quoteTokenId)

/-- An order before it is placed; only a signed one can be. -/
structure OrderInput where
  accountId : ℕ
  side : OrderSide
  orderId : ℕ
  tokenBuy : Fr
  tokenSell : Fr
  totalSell : Fr
  totalBuy : Fr
  sig : Option SignatureBJJ

/-- Neither the account nor the order id is part of what is signed. -/
def OrderInput.hash (o : OrderInput) : Fr :=
  Fr.hash [TxType.placeOrder.toFr, o.tokenSell, o.tokenBuy, o.totalSell, o.totalBuy]

/-- A new order: nothing is filled, and it is active. -/
def Order.from (o : OrderInput) : Except Panic Order := do
  let sig ← unwrap o.sig
  pure {
    accountId := o.accountId
    orderId := o.orderId
    side := o.side
    tokenBuy := o.tokenBuy
    tokenSell := o.tokenSell
    totalSell := o.totalSell
    totalBuy := o.totalBuy
    sig := Babyjubjub.fromRaw o.hash sig
    filledSell := 0
    filledBuy := 0
    isActive := true }

/-- `as u32` -/
def asU32 (id : ℕ) : ℕ := id % 2 ^ 32

/-- The order must be new; its id is cut to 32 bits. -/
def exchangeOrderToRollupOrder (origin : Messages.Order) : Except Panic OrderInput := do
  assert (isZero origin.finishedBase = true) "origin.finished_base.is_zero()"
  assert (isZero origin.finishedQuote = true) "origin.finished_quote.is_zero()"
  let (baseTokenId, quoteTokenId) ← TokenIdPair.from origin.market
  let basePrec ← precTokenId baseTokenId
  let quotePrec ← precTokenId quoteTokenId
  match origin.side with
  | .ask => do
    let totalSell ← toFr origin.amount basePrec
    let quoteAmount ← mul origin.amount origin.price
    let totalBuy ← toFr quoteAmount quotePrec
    let sig ← bytesToSig origin.signature
    pure {
      orderId := asU32 origin.id
      tokenBuy := quoteTokenId
      tokenSell := baseTokenId
      totalSell := totalSell
      totalBuy := totalBuy
      sig := some sig
      accountId := origin.user
      side := .sell }
  | .bid => do
    let quoteAmount ← mul origin.amount origin.price
    let totalSell ← toFr quoteAmount quotePrec
    let totalBuy ← toFr origin.amount basePrec
    let sig ← bytesToSig origin.signature
    pure {
      orderId := asU32 origin.id
      tokenBuy := baseTokenId
      tokenSell := quoteTokenId
      totalSell := totalSell
      totalBuy := totalBuy
      sig := some sig
      accountId := origin.user
      side := .buy }

/-! ## What is read from the state -/

/-- The balances are compared as decimals. -/
def checkBalanceState (s : GlobalState lv) (balanceState : VerboseBalanceState) :
    Except Panic Unit := do
  let tokenId ← getTokenIdByName balanceState.asset
  let balance ← s.getTokenBalance balanceState.userId tokenId
  let precision ← precTokenId tokenId
  let balanceLocal ← toDecimal balance precision
  assert (eq balanceState.balance balanceLocal = true)
    s!"uid {balanceState.userId} token {tokenId} remote balance, local balance"

/-- The fills of an order, as decimals. -/
def localFills (order : Order) (buyTokenId sellTokenId : ℕ) : Except Panic (Decimal × Decimal) := do
  let buyPrec ← precTokenId buyTokenId
  let filledBuy ← toDecimal order.filledBuy buyPrec
  let sellPrec ← precTokenId sellTokenId
  let filledSell ← toDecimal order.filledSell sellPrec
  pure (filledBuy, filledSell)

/-- An order that is not stored has no fills. -/
def checkOrderState (s : GlobalState lv) (baseTokenId quoteTokenId : ℕ)
    (orderState : VerboseOrderState) : Except Panic Unit :=
  let orderId := asU32 orderState.orderId
  if s.hasOrder orderState.userId orderId then do
    let orderLocal ← s.getAccountOrderById orderState.userId orderId
    match orderState.orderSide with
    | .bid => do
      let (filledBuy, filledSell) ← localFills orderLocal baseTokenId quoteTokenId
      assert (eq orderState.finishedBase filledBuy = true) "remote_filled_buy"
      assert (eq orderState.finishedQuote filledSell = true) "remote_filled_sell"
    | .ask => do
      let (filledBuy, filledSell) ← localFills orderLocal quoteTokenId baseTokenId
      assert (eq orderState.finishedQuote filledBuy = true) "remote_filled_buy"
      assert (eq orderState.finishedBase filledSell = true) "remote_filled_sell"
  else do
    assert (eq orderState.finishedBase zero = true) "finished_base"
    assert (eq orderState.finishedQuote zero = true) "finished_quote"

/-- What the exchange says of the state, if it says something, is compared with the state. -/
def checkState (s : GlobalState lv) (trade : TradeMessage) :
    Option VerboseTradeState → Except Panic Unit
  | none => pure ()
  | some state => do
    let (baseTokenId, quoteTokenId) ← TokenIdPair.from trade.market
    state.balanceStates.forM (checkBalanceState s)
    state.orderStates.forM (checkOrderState s baseTokenId quoteTokenId)

namespace TransferTx

/-- The nonce and the signature are to be filled in. -/
def new (fromId toId tokenId : ℕ) (amount : U128) : TransferTx where
  fromId := fromId
  toId := toId
  tokenId := tokenId
  amount := amount
  fromNonce := 0
  sig := Signature.default
  l2key := none

/-- What the sender signs: the last six digits of the amount are not part of it. -/
def hash (tx : TransferTx) : Fr :=
  Fr.hash [TxType.transfer.toFr, tx.tokenId, (tx.amount / 1000000).toFr, tx.fromId, tx.fromNonce,
    tx.toId]

end TransferTx

/-- A transfer that its sender has not signed stops the program. -/
def checkTransferSig (s : GlobalState lv) (transfer : TransferTx) (sig : SignatureBJJ) :
    Except Panic Unit :=
  Exec.unwrap (.explicit "invalid sig for transfer")
    (s.checkSig transfer.fromId transfer.hash sig).toOption

/-- An order without a signature of its account stops the program. -/
def checkOrderSig (s : GlobalState lv) (orderToPut : OrderInput) : Except Panic Unit := do
  let sig ← unwrap orderToPut.sig
  Exec.unwrap (.explicit "invalid sig for order")
    (s.checkSig orderToPut.accountId orderToPut.hash sig).toOption

/-! ## The handlers -/

/-- The node after a call that has led to this state and emitted this transaction, or none. -/
def Node.advance (n : Node lv) (rawTx : Option RawTx) (s : GlobalState lv) : Node lv :=
  { n with manager := { n.manager with state := s } }.emit rawTx

/-- A call whose result is unwrapped. -/
def Node.stepUnwrap (n : Node lv) (op : Op) : Except Panic (Node lv) := do
  let (result, s) ← n.state.apply op
  let rawTx ← unwrap result
  pure (n.advance (some rawTx) s)

namespace Processor

/-- Signatures are checked. -/
def default : Processor := ⟨true⟩

/-- Checking a signature, if signatures are checked. -/
def check (p : Processor) (sig : Except Panic Unit) : Except Panic Unit :=
  if p.enableCheckSig then sig else pure ()

/-- `trim_start_matches("0x")` -/
def trimStart0x : List Char → List Char
  | '0' :: 'x' :: cs => trimStart0x cs
  | cs => cs

/-- The user must not have a key yet. -/
def handleUserMsg (_ : Processor) (n : Node lv) (message : Message UserMessage) :
    Except Panic (Node lv) := do
  let userInfo := message.message
  let accountId := userInfo.userId
  assert (¬n.state.hasAccount accountId) "!manager.has_account(account_id)"
  let l2Pubkey ← unwrap
    (UserKey.hexDecode (String.ofList (trimStart0x userInfo.l2Pubkey.toList))).toOption
  -- `try_into` an array of 32 bytes
  let bjjCompressed ← unwrap
    (if h : l2Pubkey.length = 32 then some (⟨l2Pubkey.toArray, h⟩ : Vector UInt8 32) else none)
  let l2PubkeyPoint ← unwrap (UserKey.decompressPoint bjjCompressed).toOption
  let ethAddr ← UserKey.frFromStr userInfo.l1Address
  let sign := if bjjCompressed[31] &&& 0x80 ≠ 0 then 1 else 0
  n.stepUnwrap (.keyUpdate ⟨accountId, ⟨ethAddr, sign, UserKey.y l2PubkeyPoint⟩⟩ message.offset)

/-- The balance before the deposit is checked. -/
def handleDepositMsg (_ : Processor) (n : Node lv) (message : Message DepositMessage) :
    Except Panic (Node lv) := do
  let deposit := message.message
  assert (isSignNegative deposit.change = false) "should be a deposit"
  let tokenId ← getTokenIdByName deposit.asset
  let accountId := deposit.userId
  let balanceBefore ← sub deposit.balance deposit.change
  assert (isSignNegative balanceBefore = false) "invalid balance"
  let expectedBalanceBefore ← n.state.getTokenBalance accountId tokenId
  let precision ← precTokenId tokenId
  let oldBalance ← toFr balanceBefore precision
  assert (expectedBalanceBefore = oldBalance) "expected_balance_before"
  let amount ← toU64 deposit.change precision
  n.stepUnwrap (.deposit ⟨accountId, tokenId, .ofNat 128 amount.toNat, none⟩ message.offset)

/-- Only the end of an order that has been traded changes something. -/
def handleOrderMsg (_ : Processor) (n : Node lv) (message : Message OrderMessage) :
    Except Panic (Node lv) :=
  let order := message.message.order
  match message.message.event with
  | .finish => do
    assert (isZero order.finishedBase = isZero order.finishedQuote)
      "finished_base.is_zero(), finished_quote.is_zero()"
    if isZero order.finishedBase = true then do
      assert (¬n.state.hasOrder order.user (asU32 order.id)) "manager should not have empty order"
      pure n
    else do
      assert (n.state.hasOrder order.user (asU32 order.id)) "manager should have traded order"
      n.step (.cancelOrder order.user (asU32 order.id))
  | .put | .update | .expired => pure n

/-- The maker is party 1, whichever side it is on. -/
def tradeIntoSpotTx (_ : Processor) (trade : TradeMessage) : Except Panic SpotTradeTx := do
  let (baseTokenId, quoteTokenId) ← TokenIdPair.from trade.market
  match trade.askRole with
  | .maker => do
    let basePrec ← precTokenId baseTokenId
    let amount1to2 ← toFr trade.amount basePrec
    let quotePrec ← precTokenId quoteTokenId
    let amount2to1 ← toFr trade.quoteAmount quotePrec
    pure {
      order1AccountId := trade.askUserId
      order2AccountId := trade.bidUserId
      tokenId1to2 := baseTokenId
      tokenId2to1 := quoteTokenId
      amount1to2 := amount1to2
      amount2to1 := amount2to1
      order1Id := asU32 trade.askOrderId
      order2Id := asU32 trade.bidOrderId }
  | .taker => do
    let quotePrec ← precTokenId quoteTokenId
    let amount1to2 ← toFr trade.quoteAmount quotePrec
    let basePrec ← precTokenId baseTokenId
    let amount2to1 ← toFr trade.amount basePrec
    pure {
      order1AccountId := trade.bidUserId
      order2AccountId := trade.askUserId
      tokenId1to2 := quoteTokenId
      tokenId2to1 := baseTokenId
      amount1to2 := amount1to2
      amount2to1 := amount2to1
      order1Id := asU32 trade.bidOrderId
      order2Id := asU32 trade.askOrderId }

/-- The order of a side of the trade, if it comes with the message: it must be new. -/
def sideOrder (p : Processor) (s : GlobalState lv) :
    Option Messages.Order → Except Panic (Option Order)
  | none => pure none
  | some origin => do
    let orderInput ← exchangeOrderToRollupOrder origin
    p.check (checkOrderSig s orderInput)
    assert (¬s.hasOrder orderInput.accountId orderInput.orderId) "!manager.has_order"
    let order ← Order.from orderInput
    pure (some order)

/-- The orders of the maker and of the taker, with the order of a side. -/
def withRole (orders : Option Order × Option Order) (role : MarketRole) :
    Option Order → Option Order × Option Order
  | none => orders
  | some order =>
    match role with
    | .maker => (some order, orders.2)
    | .taker => (orders.1, some order)

/-- What the exchange says of the state is checked before the trade and after it. -/
def handleTradeMsg (p : Processor) (n : Node lv) (schedule : Shuffle Task)
    (message : Message TradeMessage) : Except Panic (Node lv) := do
  let trade := message.message
  checkState n.state trade trade.stateBefore
  let askOrder ← p.sideOrder n.state trade.askOrder
  let bidOrder ← p.sideOrder n.state trade.bidOrder
  let orders := withRole (withRole (none, none) trade.askRole askOrder) trade.bidRole bidOrder
  let spotTx ← p.tradeIntoSpotTx trade
  let n ← n.step (.fullSpotTrade schedule ⟨spotTx, orders.1, orders.2⟩ message.offset)
  checkState n.state trade trade.stateAfter
  pure n

/-- The sender may be the receiver. -/
def handleTransferMsg (p : Processor) (n : Node lv) (schedule : Shuffle Task)
    (message : Message TransferMessage) : Except Panic (Node lv) := do
  let transfer := message.message
  assert (isSignNegative transfer.amount = false) "Transfer amount must not be negative"
  let tokenId ← getTokenIdByName transfer.asset
  let balance ← n.state.getTokenBalance transfer.userFrom tokenId
  let precision ← precTokenId tokenId
  let fromBalance ← toDecimal balance precision
  assert (ge fromBalance transfer.amount = true) "From user must have sufficient balance"
  let rawSig ← bytesToSig transfer.signature
  let amount ← toU64 transfer.amount precision
  let transferTx := TransferTx.new transfer.userFrom transfer.userTo tokenId (.ofNat 128 amount.toNat)
  let transferTx := { transferTx with sig := Babyjubjub.fromRaw transferTx.hash rawSig }
  p.check (checkTransferSig n.state transferTx rawSig)
  n.step (.transfer schedule transferTx message.offset)

/-- The schedule is that of the parallel tasks of a transfer or a trade. -/
def handleMsg (p : Processor) (n : Node lv) (schedule : Shuffle Task) :
    WrappedMessage → Except Panic (Node lv)
  | .deposit deposit => p.handleDepositMsg n deposit
  | .order order => p.handleOrderMsg n order
  | .trade trade => p.handleTradeMsg n schedule trade
  | .transfer transfer => p.handleTransferMsg n schedule transfer
  | .user user => p.handleUserMsg n user
  | .withdraw withdraw => p.handleWithdrawMsg n withdraw

end Processor

/-! ## The loop -/

/-- What `recv_timeout` returns. -/
inductive Received where
  | msg (message : WrappedMessage) (schedule : Shuffle Task)
  | timeout

/-- Some transaction is buffered. -/
def ManagerWrapper.hasRawTx (m : ManagerWrapper lv) : Prop := m.bufferedTxs ≠ []

instance (m : ManagerWrapper lv) : Decidable m.hasRawTx :=
  decidable_of_iff (¬m.bufferedTxs.isEmpty = true) (by rw [List.isEmpty_iff]; rfl)

namespace Node

/-- Nothing is flushed if no block has been begun. -/
def receive (n : Node lv) : Received → Except Panic (Node lv)
  | .msg message schedule => Processor.default.handleMsg n schedule message
  | .timeout => if n.manager.hasRawTx then n.step .flushWithNop else pure n

/-- The body of the loop of `run_msg_processor`. -/
def processMsg (n : Node lv) (received : Received) : Except Panic (Node lv) := do
  let n ← n.receive received
  n.step .popAllBlocks

end Node

end Rollup
