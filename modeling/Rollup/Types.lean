import Rollup.Basic

/-!
# Accounts, orders and transactions

`state/account.rs` and `types/l2/`: the leaves of the trees, the transactions
the manager takes, and the raw transactions and blocks it emits.

The payload of a raw transaction is the vector of the inputs of the circuit,
one for each `tx_detail_idx`. An input that is not set is zero.
-/

namespace Rollup

/-! ## Accounts -/

/-- The leaf of an account: its nonce, its key (`sign` and `ay`) and the roots of its two trees. -/
structure AccountState where
  nonce : Fr
  sign : Fr
  balanceRoot : Fr
  ay : Fr
  orderRoot : Fr
  deriving DecidableEq

namespace AccountState

/-- An account without a key, over the trees with these roots. -/
def empty (balanceRoot orderRoot : Fr) : AccountState where
  nonce := 0
  sign := 0
  balanceRoot := balanceRoot
  ay := 0
  orderRoot := orderRoot

/-- The nonce and the sign of the key share one field element. -/
def hash [FluidexCommon] (acc : AccountState) : Fr :=
  Fr.hash [acc.nonce + Fr.shl acc.sign 40, acc.balanceRoot, acc.ay, acc.orderRoot]

/-- Only the key changes. -/
def updateL2Addr (acc : AccountState) (sign ay : Fr) : AccountState :=
  { acc with sign := sign, ay := ay }

/-- Only the nonce changes. -/
def updateNonce (acc : AccountState) (nonce : Fr) : AccountState := { acc with nonce := nonce }

/-- Only the root of the orders changes. -/
def updateOrderRoot (acc : AccountState) (orderRoot : Fr) : AccountState :=
  { acc with orderRoot := orderRoot }

end AccountState

/-! ## Orders -/

/-- The side of an order decides which of its totals fills it (`Order.isFilled`). -/
inductive OrderSide where
  | buy
  | sell
  deriving DecidableEq

/-- A signature, with the message it signs. -/
structure Signature where
  hash : Fr
  s : Fr
  r8x : Fr
  r8y : Fr
  deriving DecidableEq

/-- The signature of a transaction that is not signed. -/
def Signature.default : Signature := ⟨0, 0, 0, 0⟩

/-- An order of an account, with what has been bought and sold of its totals. -/
structure Order where
  accountId : ℕ
  orderId : ℕ
  side : OrderSide
  tokenBuy : Fr
  tokenSell : Fr
  totalSell : Fr
  totalBuy : Fr
  sig : Signature
  filledSell : Fr
  filledBuy : Fr
  isActive : Bool
  deriving DecidableEq

namespace Order

/-- The order of an empty slot. -/
def default : Order where
  accountId := 0
  orderId := 0
  side := .buy
  tokenBuy := 0
  tokenSell := 0
  totalSell := 0
  totalBuy := 0
  sig := Signature.default
  filledSell := 0
  filledBuy := 0
  isActive := true

/-- The leaf of an order. Neither its account nor its side is part of it, nor whether it is
    active. -/
def hash [FluidexCommon] (o : Order) : Fr :=
  Fr.hash [o.orderId + Fr.shl o.tokenBuy 32 + Fr.shl o.tokenSell 64,
    o.filledSell, o.filledBuy, o.totalSell, o.totalBuy]

/-- One side being filled is enough, depending on the side of the order. -/
def isFilled (o : Order) : Prop :=
  (o.side = .buy ∧ o.totalBuy.val ≤ o.filledBuy.val) ∨
    (o.side = .sell ∧ o.totalSell.val ≤ o.filledSell.val)

instance (o : Order) : Decidable o.isFilled := inferInstanceAs (Decidable (_ ∨ _))

/-- An order selling nothing stands for an empty slot. -/
def isDefault (o : Order) : Prop := o.totalSell = 0

instance (o : Order) : Decidable o.isDefault := inferInstanceAs (Decidable (_ = _))

/-- The fills grow by what is sold and what is bought, past the totals as well. -/
def tradeWith (o : Order) (sell buy : Fr) : Order :=
  { o with filledBuy := o.filledBuy + buy, filledSell := o.filledSell + sell }

end Order

/-! ## Transactions -/

/-- The amounts of the transactions are `u128`s. -/
abbrev U128 := BitVec 128

/-- `Fr::from_bigint(BigInt::from(amount))` -/
def U128.toFr (amount : U128) : Fr := (amount.toNat : Fr)

/-- The key of an account: its address on the first layer, and a point of the curve. -/
structure L2Key where
  ethAddr : Fr
  sign : Fr
  ay : Fr
  deriving DecidableEq

/-- Giving a key to an account that has none. -/
structure UpdateKeyTx where
  accountId : ℕ
  l2key : L2Key

/-- Adding an amount to a balance. -/
structure DepositTx where
  accountId : ℕ
  tokenId : ℕ
  amount : U128
  /-- A key for a deposit creating the account, `none` for one to an existing account. -/
  l2key : Option L2Key

/-- Moving an amount of a token from an account to another, signed by the sender. -/
structure TransferTx where
  fromId : ℕ
  toId : ℕ
  tokenId : ℕ
  amount : U128
  fromNonce : Fr
  sig : Signature
  l2key : Option L2Key

/-- Taking an amount of a token out of an account, signed by the account. -/
structure WithdrawTx where
  accountId : ℕ
  tokenId : ℕ
  amount : U128
  nonce : Fr
  oldBalance : Fr
  sig : Signature

/-- The exchange of two tokens between two orders: account 1 gives `tokenId1to2`. -/
structure SpotTradeTx where
  order1AccountId : ℕ
  order2AccountId : ℕ
  tokenId1to2 : ℕ
  tokenId2to1 : ℕ
  amount1to2 : Fr
  amount2to1 : Fr
  order1Id : ℕ
  order2Id : ℕ

/-- A trade, with the orders that are new. -/
structure FullSpotTradeTx where
  trade : SpotTradeTx
  /-- An order that is not supplied must be stored. -/
  makerOrder : Option Order
  takerOrder : Option Order

/-! ## Raw transactions -/

/-- The types of the raw transactions. -/
inductive TxType where
  | nop
  | deposit
  | transfer
  | withdraw
  | placeOrder
  | spotTrade
  deriving DecidableEq

/-- The number of a type of transactions, for the circuit. -/
def TxType.toFr : TxType → Fr
  | .nop => 0
  | .deposit => 1
  | .transfer => 2
  | .withdraw => 3
  | .placeOrder => 4
  | .spotTrade => 5

/-- `tx_detail_idx`: the inputs of the circuit, in order. -/
inductive TxDetailIdx where
  | enableBalanceCheck1 | accountId1 | tokenId1 | balance1 | sign1 | ay1 | nonce1
  | enableBalanceCheck2 | accountId2 | tokenId2 | balance2 | sign2 | ay2 | nonce2
  | enableSigCheck1 | sigL2Hash1 | s1 | r8x1 | r8y1
  | enableSigCheck2 | sigL2Hash2 | s2 | r8x2 | r8y2
  | amount | amount1 | amount2 | balance3 | balance4 | order1Pos | order2Pos
  | oldOrder1Id | oldOrder1TokenSell | oldOrder1FilledSell | oldOrder1AmountSell
  | oldOrder1TokenBuy | oldOrder1FilledBuy | oldOrder1AmountBuy
  | newOrder1Id | newOrder1TokenSell | newOrder1FilledSell | newOrder1AmountSell
  | newOrder1TokenBuy | newOrder1FilledBuy | newOrder1AmountBuy
  | oldOrder2Id | oldOrder2TokenSell | oldOrder2FilledSell | oldOrder2AmountSell
  | oldOrder2TokenBuy | oldOrder2FilledBuy | oldOrder2AmountBuy
  | newOrder2Id | newOrder2TokenSell | newOrder2FilledSell | newOrder2AmountSell
  | newOrder2TokenBuy | newOrder2FilledBuy | newOrder2AmountBuy
  | dstIsNew
  deriving DecidableEq

/-- The inputs of the circuit for one transaction. -/
abbrev Payload := TxDetailIdx → Fr

/-- A transaction for the circuit, with the openings of the leaves it reads and writes. -/
structure RawTx where
  txType : TxType
  payload : Payload
  balancePath0 : List Fr
  balancePath1 : List Fr
  balancePath2 : List Fr
  balancePath3 : List Fr
  orderPath0 : List Fr
  orderPath1 : List Fr
  orderRoot0 : Fr
  orderRoot1 : Fr
  accountPath0 : List Fr
  accountPath1 : List Fr
  rootBefore : Fr
  rootAfter : Fr
  /-- The offset in the queue of the message it comes from. -/
  offset : Option ℤ

/-! ## Blocks -/

/-- A block for the circuit: the vectors hold one entry for each transaction. -/
structure L2BlockDetail where
  oldRoot : Fr
  newRoot : Fr
  txdataHash : List UInt8
  txsType : List TxType
  encodedTxs : List Payload
  balancePathElements : List (List (List Fr))
  orderPathElements : List (List (List Fr))
  accountPathElements : List (List (List Fr))
  orderRoots : List (List Fr)
  oldAccountRoots : List Fr
  newAccountRoots : List Fr

/-- A block with its number and the public data that its hash commits to. -/
structure L2Block where
  blockId : ℕ
  detail : L2BlockDetail
  publicData : List UInt8

end Rollup
