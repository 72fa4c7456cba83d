import Rollup.Conservation
import Rollup.Emitted
import Rollup.Settlement

/-!
# Queries of the blocks

`Controller::l2_block_query` decodes the transactions of a block: it reads the accounts, the
tokens, the amount and some of the balances in the payload, and computes the other balances, all
in the field, before they are formatted as decimals. Which slot holds which balance is up to the
kind of transaction: that of the sender is the one before the transfer, that of the receiver the
one after it.

What is decoded is compared with the effect of the transaction, the balances that are stored
before and after it (`decodeTx_iff`). For a transfer it is wrong in general: the balance of the
receiver is read in the slot of the sender (`not_decodeTx_twenty`).
-/

namespace Rollup

/-- `FrExt::to_u32`, of a crate outside the repository. -/
class FrToU32 where
  toU32 : Fr → Except Panic ℕ

/-- The number of an element that has been converted from one. -/
def FrToU32.Documented [FrToU32] : Prop := ∀ n : ℕ, n < 2 ^ 32 → FrToU32.toU32 n = .ok n

/-- The conversion of the elements of 32 bits, to run the model with. -/
@[reducible] def FrToU32.sample : FrToU32 where
  toU32 x := if x.val < 2 ^ 32 then .ok x.val else .error .unwrap

theorem FrToU32.documented_sample : @FrToU32.Documented FrToU32.sample := by
  intro n hn
  have hval : (n : Fr).val = n := Fr.val_natCast hn (by decide)
  show (if (n : Fr).val < 2 ^ 32 then Except.ok (n : Fr).val else _) = _
  rw [hval, if_pos hn]

/-! ## Decoding -/

namespace L2BlockQuery

/-- A deposit as it is shown: the balance before and after. -/
structure DepositTx where
  accountId : ℕ
  tokenId : ℕ
  amount : Fr
  oldBalance : Fr
  newBalance : Fr

/-- A withdrawal as it is shown: the balance before and after. -/
structure WithdrawTx where
  accountId : ℕ
  tokenId : ℕ
  amount : Fr
  oldBalance : Fr
  newBalance : Fr

/-- A transfer as it is shown: both balances before and after. -/
structure TransferTx where
  fromId : ℕ
  toId : ℕ
  tokenId : ℕ
  amount : Fr
  fromOldBalance : Fr
  fromNewBalance : Fr
  toOldBalance : Fr
  toNewBalance : Fr

/-- A trade as it is shown: four balances before and after. -/
structure SpotTradeTx where
  order1AccountId : ℕ
  order2AccountId : ℕ
  tokenId1to2 : ℕ
  tokenId2to1 : ℕ
  amount1to2 : Fr
  amount2to1 : Fr
  account1TokenBuyNewBalance : Fr
  account1TokenBuyOldBalance : Fr
  account1TokenSellNewBalance : Fr
  account1TokenSellOldBalance : Fr
  account2TokenBuyNewBalance : Fr
  account2TokenBuyOldBalance : Fr
  account2TokenSellNewBalance : Fr
  account2TokenSellOldBalance : Fr

/-- At most one of the four is there, by the type of the transaction. -/
structure DecodedTx where
  depositTx : Option DepositTx := none
  withdrawTx : Option WithdrawTx := none
  transferTx : Option TransferTx := none
  spotTradeTx : Option SpotTradeTx := none

open FrToU32

/-- The decoding of one transaction in `l2_block_query`. -/
def decodeTx [FrToU32] (txType : TxType) (tx : Payload) : Except Panic DecodedTx :=
  match txType with
  | .deposit => do
    let accountId ← toU32 (tx .accountId1)
    let accountId2 ← toU32 (tx .accountId2)
    assert (accountId = accountId2) "account_id == tx[tx_detail_idx::ACCOUNT_ID2].0.to_u32()"
    let tokenId ← toU32 (tx .tokenId1)
    let tokenId2 ← toU32 (tx .tokenId2)
    assert (tokenId = tokenId2) "token_id == tx[tx_detail_idx::TOKEN_ID2].0.to_u32()"
    let amount := tx .amount
    let oldBalance := tx .balance1
    let newBalance := tx .balance2
    pure { depositTx := some { accountId, tokenId, amount, oldBalance, newBalance } }
  | .withdraw => do
    let accountId ← toU32 (tx .accountId1)
    let tokenId ← toU32 (tx .tokenId1)
    let tokenId2 ← toU32 (tx .tokenId2)
    assert (tokenId = tokenId2) "token_id == tx[tx_detail_idx::TOKEN_ID2].0.to_u32()"
    let amount := tx .amount
    let oldBalance := tx .balance1
    let newBalance := tx .balance2
    pure { withdrawTx := some { accountId, tokenId, amount, oldBalance, newBalance } }
  | .transfer => do
    let fromId ← toU32 (tx .accountId1)
    let toId ← toU32 (tx .accountId2)
    let tokenId ← toU32 (tx .tokenId1)
    let tokenId2 ← toU32 (tx .tokenId2)
    assert (tokenId = tokenId2) "token_id == tx[tx_detail_idx::TOKEN_ID2].0.to_u32()"
    let amount := tx .amount
    let fromOldBalance := tx .balance1
    let fromNewBalance := fromOldBalance - amount
    -- the slot of the receiver would be `balance2`
    let toNewBalance := tx .balance1
    let toOldBalance := toNewBalance - amount
    pure
      { transferTx := some
          { fromId, toId, tokenId, amount, fromOldBalance, fromNewBalance, toOldBalance,
            toNewBalance } }
  | .spotTrade => do
    let order1AccountId ← toU32 (tx .accountId1)
    let order2AccountId ← toU32 (tx .accountId2)
    let tokenId1to2 ← toU32 (tx .newOrder1TokenSell)
    let tokenId2to1 ← toU32 (tx .newOrder2TokenSell)
    let amount1 := tx .amount1
    let amount2 := tx .amount2
    let balance1 := tx .balance1
    let balance2 := tx .balance2
    let balance3 := tx .balance3
    let balance4 := tx .balance4
    pure
      { spotTradeTx := some
          { order1AccountId
            order2AccountId
            tokenId1to2
            tokenId2to1
            amount1to2 := amount1
            amount2to1 := amount2
            account1TokenSellOldBalance := balance1
            account1TokenSellNewBalance := balance1 - amount1
            account1TokenBuyOldBalance := balance4 - amount2
            account1TokenBuyNewBalance := balance4
            account2TokenSellOldBalance := balance3
            account2TokenSellNewBalance := balance3 - amount2
            account2TokenBuyOldBalance := balance2 - amount1
            account2TokenBuyNewBalance := balance2 } }
  | _ => pure {}

end L2BlockQuery

section Querying

variable [FluidexCommon] {lv : Levels}

/-! ## The effect of a transaction -/

/-- What a transaction is about, and the balances before and after it. -/
def Op.effect (s s' : GlobalState lv) : Op → L2BlockQuery.DecodedTx
  | .deposit tx _ =>
    { depositTx := some
        { accountId := tx.accountId
          tokenId := tx.tokenId
          amount := tx.amount.toFr
          oldBalance := s.balanceOf tx.accountId tx.tokenId
          newBalance := s'.balanceOf tx.accountId tx.tokenId } }
  | .withdraw tx _ =>
    { withdrawTx := some
        { accountId := tx.accountId
          tokenId := tx.tokenId
          amount := tx.amount.toFr
          oldBalance := s.balanceOf tx.accountId tx.tokenId
          newBalance := s'.balanceOf tx.accountId tx.tokenId } }
  | .transfer _ tx _ =>
    { transferTx := some
        { fromId := tx.fromId
          toId := tx.toId
          tokenId := tx.tokenId
          amount := tx.amount.toFr
          fromOldBalance := s.balanceOf tx.fromId tx.tokenId
          fromNewBalance := s'.balanceOf tx.fromId tx.tokenId
          toOldBalance := s.balanceOf tx.toId tx.tokenId
          toNewBalance := s'.balanceOf tx.toId tx.tokenId } }
  | .fullSpotTrade _ tx _ =>
    let t := tx.trade
    { spotTradeTx := some
        { order1AccountId := t.order1AccountId
          order2AccountId := t.order2AccountId
          tokenId1to2 := t.tokenId1to2
          tokenId2to1 := t.tokenId2to1
          amount1to2 := t.amount1to2
          amount2to1 := t.amount2to1
          account1TokenSellOldBalance := s.balanceOf t.order1AccountId t.tokenId1to2
          account1TokenSellNewBalance := s'.balanceOf t.order1AccountId t.tokenId1to2
          account1TokenBuyOldBalance := s.balanceOf t.order1AccountId t.tokenId2to1
          account1TokenBuyNewBalance := s'.balanceOf t.order1AccountId t.tokenId2to1
          account2TokenSellOldBalance := s.balanceOf t.order2AccountId t.tokenId2to1
          account2TokenSellNewBalance := s'.balanceOf t.order2AccountId t.tokenId2to1
          account2TokenBuyOldBalance := s.balanceOf t.order2AccountId t.tokenId1to2
          account2TokenBuyNewBalance := s'.balanceOf t.order2AccountId t.tokenId1to2 } }
  | _ => {}

/-- The orders of the trade sell its tokens. -/
structure FullSpotTradeTx.SellsTokens (tx : FullSpotTradeTx) (s : GlobalState lv) : Prop where
  order1 : ∀ o, s.takeOrder tx.makerOrder tx.trade.order1AccountId tx.trade.order1Id "order1" =
    .ok o → o.tokenSell = tx.trade.tokenId1to2
  order2 : ∀ o, s.takeOrder tx.takerOrder tx.trade.order2AccountId tx.trade.order2Id "order2" =
    .ok o → o.tokenSell = tx.trade.tokenId2to1

/-- The transactions that are decoded, but for the deposits with a key, the transfers of an
    account to itself, and the trades of other tokens than those of the orders. The ids of
    the tokens are `u32`s. -/
def Op.Queried (s : GlobalState lv) : Op → Prop
  | .deposit tx _ => tx.l2key = none ∧ tx.tokenId < 2 ^ 32
  | .withdraw tx _ => tx.tokenId < 2 ^ 32
  | .transfer _ tx _ => tx.fromId ≠ tx.toId ∧ tx.tokenId < 2 ^ 32
  | .fullSpotTrade _ tx _ => tx.trade.tokenId1to2 ≠ tx.trade.tokenId2to1 ∧ tx.SellsTokens s ∧
      tx.trade.tokenId1to2 < 2 ^ 32 ∧ tx.trade.tokenId2to1 < 2 ^ 32
  | _ => False

/-- The balance that is stored is the one that is read: the token has a leaf and the account a
    key, or both are zero. -/
def GlobalState.ReadsBalance (s : GlobalState lv) (accountId tokenId : ℕ) : Prop :=
  s.getTokenBalance accountId tokenId = .ok (s.balanceOf accountId tokenId)

/-- When the effect is what is decoded. The balance that the receiver of a transfer gets has to
    be the one that the sender had. -/
def Op.Decodable (s : GlobalState lv) : Op → Prop
  | .deposit tx _ => s.ReadsBalance tx.accountId tx.tokenId
  | .withdraw tx _ => s.ReadsBalance tx.accountId tx.tokenId ∧
      (tx.tokenId < 2 ^ lv.balanceLevels ∨ tx.amount.toFr = 0)
  | .transfer _ tx _ => s.ReadsBalance tx.fromId tx.tokenId ∧
      (tx.tokenId < 2 ^ lv.balanceLevels → s.ReadsBalance tx.toId tx.tokenId) ∧
      s.balanceOf tx.fromId tx.tokenId = s.balanceOf tx.toId tx.tokenId + tx.amount.toFr
  | .fullSpotTrade _ tx _ => tx.trade.tokenId1to2 < 2 ^ lv.balanceLevels ∧
      tx.trade.tokenId2to1 < 2 ^ lv.balanceLevels
  | _ => True

variable {s s' : GlobalState lv} {L : Ledger lv} {e : Entry lv} {a tokenId : ℕ}

theorem readsBalance_iff (h : Shows s L) :
    s.ReadsBalance a tokenId ↔ (L.entry a).balance tokenId = s.balanceOf a tokenId := by
  rw [GlobalState.ReadsBalance, h.getTokenBalance_eq, Except.ok.injEq]

/-- A balance that is set by the code is stored if it has a leaf. -/
theorem balanceOf_set (h : Shows s' (L.set a e)) {t : Tree lv.balanceLevels} {v : Fr}
    (ht : t.setValue tokenId v = .ok e.balanceTree) :
    s'.balanceOf a tokenId = if tokenId < 2 ^ lv.balanceLevels then v else 0 := by
  by_cases hleaf : tokenId < 2 ^ lv.balanceLevels
  · rw [h.balanceOf_eq a hleaf, Ledger.entry_set, if_pos rfl, Tree.getLeaf_setValue_self ht,
      if_pos hleaf]
  · rw [s'.balanceOf_of_le a hleaf, if_neg hleaf]

open FrToU32 L2BlockQuery

variable [FrToU32]

/-! ## Deposits and withdrawals -/

omit [FluidexCommon] in
theorem decodeTx_deposit (hu : FrToU32.Documented) {tx : Rollup.DepositTx}
    (hacc : tx.accountId < 2 ^ 32) (htoken : tx.tokenId < 2 ^ 32) (acc : AccountState) (old : Fr) :
    decodeTx .deposit (depositPayload tx acc old) =
      .ok { depositTx := some ⟨tx.accountId, tx.tokenId, tx.amount.toFr, old,
        old + tx.amount.toFr⟩ } := by
  simp only [decodeTx, depositPayload, hu _ hacc, hu _ htoken, Exec.ok_bind]
  rfl

omit [FluidexCommon] in
theorem decodeTx_withdraw (hu : FrToU32.Documented) {tx : Rollup.WithdrawTx}
    (hacc : tx.accountId < 2 ^ 32) (htoken : tx.tokenId < 2 ^ 32) (acc : AccountState) (old : Fr) :
    decodeTx .withdraw (withdrawPayload tx acc old) =
      .ok { withdrawTx := some ⟨tx.accountId, tx.tokenId, tx.amount.toFr, old,
        old - tx.amount.toFr⟩ } := by
  simp only [decodeTx, withdrawPayload, hu _ hacc, hu _ htoken, Exec.ok_bind]
  rfl

theorem decodeTx_deposit_iff (hu : FrToU32.Documented) (h : Shows s L) {tx : Rollup.DepositTx}
    {offset : Option ℤ} {raw : RawTx} (hkey : tx.l2key = none) (htoken : tx.tokenId < 2 ^ 32)
    (hr : s.deposit tx offset = .ok (.ok raw, s')) :
    decodeTx raw.txType raw.payload = .ok ((Op.deposit tx offset).effect s s') ↔
      s.ReadsBalance tx.accountId tx.tokenId := by
  rcases deposit_spec h hr with ⟨hnone, -⟩ | ⟨hacc, t, ht, h', hraw⟩
  · cases hnone
  obtain rfl := Except.ok.inj hraw
  have hay := (h.hasAccount_iff _).1 (hacc.1 hkey)
  have hlt := Levels.account_lt_u32 (h'.lt (L.set_self _ _))
  have hset : (L.entry tx.accountId).balanceTree.setValue tx.tokenId
      ((L.entry tx.accountId).balance tx.tokenId + tx.amount.toFr) = .ok
        (((L.entry tx.accountId).setBalanceTree t).commit.setNewL2Addr tx.l2key).balanceTree := by
    rw [balanceTree_setNewL2Addr]
    exact ht
  change decodeTx .deposit (depositPayload tx _ _) = _ ↔ _
  rw [decodeTx_deposit hu hlt htoken, readsBalance_iff h]
  simp only [Op.effect, Except.ok.injEq, DecodedTx.mk.injEq, Option.some.injEq,
    L2BlockQuery.DepositTx.mk.injEq,
    true_and, and_true, balanceOf_set h' hset]
  constructor
  · exact And.left
  · intro hold
    refine ⟨hold, ?_⟩
    split
    · rfl
    · next hleaf =>
      -- the value that is already there is not checked
      rcases Tree.setValue_cases ht with ⟨hsame, -⟩ | ⟨hlt, -⟩
      · rw [← hsame, ← Entry.balance_of_keyed hay, hold, s.balanceOf_of_le _ hleaf]
      · exact absurd hlt hleaf

theorem decodeTx_withdraw_iff (hu : FrToU32.Documented) (h : Shows s L) {tx : Rollup.WithdrawTx}
    {offset : Option ℤ} {raw : RawTx} (htoken : tx.tokenId < 2 ^ 32)
    (hr : s.withdraw tx offset = .ok (raw, s')) :
    decodeTx raw.txType raw.payload = .ok ((Op.withdraw tx offset).effect s s') ↔
      (Op.withdraw tx offset).Decodable s := by
  obtain ⟨t, ht, h', rfl⟩ := withdraw_spec h hr
  have hlt := Levels.account_lt_u32 (h'.lt (L.set_self _ _))
  change decodeTx .withdraw (withdrawPayload tx _ _) = _ ↔ _
  rw [decodeTx_withdraw hu hlt htoken, Op.Decodable, readsBalance_iff h]
  simp only [Op.effect, Except.ok.injEq, DecodedTx.mk.injEq, Option.some.injEq,
    L2BlockQuery.WithdrawTx.mk.injEq,
    true_and, and_true, balanceOf_set h' ht]
  refine and_congr_right fun hold => ?_
  split
  · next hleaf => exact iff_of_true rfl (.inl hleaf)
  · next hleaf =>
    rw [hold, s.balanceOf_of_le _ hleaf, zero_sub, neg_eq_zero, or_iff_right hleaf]

/-! ## Transfers -/

omit [FluidexCommon] in
theorem decodeTx_transfer (hu : FrToU32.Documented) {tx : Rollup.TransferTx}
    (hfrom : tx.fromId < 2 ^ 32) (hto : tx.toId < 2 ^ 32) (htoken : tx.tokenId < 2 ^ 32)
    (fromAccount toAccount : AccountState) (fromOld toNew : Fr) :
    decodeTx .transfer (transferPayload tx fromAccount toAccount fromOld toNew) =
      .ok { transferTx := some ⟨tx.fromId, tx.toId, tx.tokenId, tx.amount.toFr, fromOld,
        fromOld - tx.amount.toFr, fromOld - tx.amount.toFr, fromOld⟩ } := by
  simp only [decodeTx, transferPayload, hu _ hfrom, hu _ hto, hu _ htoken, Exec.ok_bind]
  rfl

theorem decodeTx_transfer_iff (hu : FrToU32.Documented) (h : Shows s L) {schedule : Shuffle Task}
    {tx : Rollup.TransferTx} {offset : Option ℤ} {raw : RawTx} (hne : tx.fromId ≠ tx.toId)
    (htoken : tx.tokenId < 2 ^ 32) (hr : s.transfer schedule tx offset = .ok (raw, s')) :
    decodeTx raw.txType raw.payload = .ok ((Op.transfer schedule tx offset).effect s s') ↔
      (Op.transfer schedule tx offset).Decodable s := by
  obtain ⟨hcan, -, s₁, -, hdesc⟩ := transfer_spec h hr
  obtain ⟨-, hbalances⟩ := transfer_balances h hr
  obtain ⟨e, he, hay⟩ := hcan.keyed
  obtain ⟨f, hf⟩ := hcan.receiver
  rw [(transfer_raw hr).1.1, hdesc.payload, decodeTx_transfer hu
    (Levels.account_lt_u32 (h.lt he)) (Levels.account_lt_u32 (h.lt hf)) htoken, Op.Decodable,
    readsBalance_iff h, readsBalance_iff h]
  simp only [Op.effect, Except.ok.injEq, DecodedTx.mk.injEq, Option.some.injEq,
    L2BlockQuery.TransferTx.mk.injEq,
    true_and, and_true]
  by_cases hleaf : tx.tokenId < 2 ^ lv.balanceLevels
  · -- the two balances that are computed are decided by that of the sender
    have hold : (L.entry tx.fromId).balance tx.tokenId = s.balanceOf tx.fromId tx.tokenId := by
      rw [h.balanceOf_eq _ hleaf, Ledger.entry_of_some he, Entry.balance_of_keyed hay]
    have hsent := hbalances.ne hne tx.fromId tx.tokenId hleaf
    have hreceived := hbalances.ne hne tx.toId tx.tokenId hleaf
    rw [if_pos rfl, if_neg hne, if_pos rfl] at hsent
    rw [if_pos rfl, if_pos rfl] at hreceived
    rw [hsent, hreceived, hold]
    constructor
    · rintro ⟨-, -, hto, hto'⟩
      refine ⟨rfl, fun _ => ?_, ?_⟩
      · rw [← hto, hto', add_sub_cancel_right]
      · rw [← hto, sub_add_cancel]
    · rintro ⟨-, hto, hfrom⟩
      refine ⟨rfl, rfl, ?_, ?_⟩
      · rw [hfrom, add_sub_cancel_right]
      · rw [hfrom, hto hleaf]
  · -- nothing is stored, so that nothing can be read or transferred
    simp only [GlobalState.balanceOf_of_le _ _ hleaf, zero_add]
    constructor
    · rintro ⟨hold, hnew, -, -⟩
      rw [hold, zero_sub, neg_eq_zero] at hnew
      exact ⟨hold, fun hlt => absurd hlt hleaf, hnew.symm⟩
    · rintro ⟨hold, -, hamount⟩
      rw [hold, ← hamount]
      exact ⟨rfl, sub_zero 0, sub_zero 0, rfl⟩

/-! ## Trades -/

omit [FrToU32] in
/-- What is sold is stored, so that the token has a leaf. -/
theorem lt_of_sold {balance amount : Fr} (h : balance = s.balanceOf a tokenId)
    (hlt : amount.val < balance.val) : tokenId < 2 ^ lv.balanceLevels := by
  by_contra hleaf
  rw [h, s.balanceOf_of_le a hleaf, ZMod.val_zero] at hlt
  exact absurd hlt (Nat.not_lt_zero _)

omit [FluidexCommon] in
theorem decodeTx_spotTrade (hu : FrToU32.Documented) {t : Rollup.SpotTradeTx} {order1 order2 : Order}
    (hacc1 : t.order1AccountId < 2 ^ 32) (hacc2 : t.order2AccountId < 2 ^ 32)
    (htoken1 : t.tokenId1to2 < 2 ^ 32) (htoken2 : t.tokenId2to1 < 2 ^ 32)
    (hsell1 : order1.tokenSell = t.tokenId1to2) (hsell2 : order2.tokenSell = t.tokenId2to1)
    (account1 account2 : AccountState) (placed1 placed2 : PlacedOrder) (balances : TradeBalances)
    (amounts1 amounts2 : Fr × Fr) :
    decodeTx .spotTrade (spotTradePayload t account1 account2 placed1 placed2 balances order1 order2
        amounts1 amounts2) =
      .ok
        { spotTradeTx := some
            { order1AccountId := t.order1AccountId
              order2AccountId := t.order2AccountId
              tokenId1to2 := t.tokenId1to2
              tokenId2to1 := t.tokenId2to1
              amount1to2 := t.amount1to2
              amount2to1 := t.amount2to1
              account1TokenSellOldBalance := balances.acc1Sell
              account1TokenSellNewBalance := balances.acc1Sell - t.amount1to2
              account1TokenBuyOldBalance := balances.acc1BuyNew - t.amount2to1
              account1TokenBuyNewBalance := balances.acc1BuyNew
              account2TokenSellOldBalance := balances.acc2Sell
              account2TokenSellNewBalance := balances.acc2Sell - t.amount2to1
              account2TokenBuyOldBalance := balances.acc2BuyNew - t.amount1to2
              account2TokenBuyNewBalance := balances.acc2BuyNew } } := by
  simp only [decodeTx, spotTradePayload, hsell1, hsell2, hu _ hacc1, hu _ hacc2, hu _ htoken1,
    hu _ htoken2, Exec.ok_bind]
  rfl

theorem decodeTx_fullSpotTrade_iff (hu : FrToU32.Documented) (h : Shows s L)
    {schedule : Shuffle Task} {tx : FullSpotTradeTx} {offset : Option ℤ} {raw : RawTx}
    (hop : (Op.fullSpotTrade schedule tx offset).Queried s)
    (hr : s.fullSpotTrade schedule tx offset = .ok (raw, s')) :
    decodeTx raw.txType raw.payload = .ok ((Op.fullSpotTrade schedule tx offset).effect s s') ↔
      (Op.fullSpotTrade schedule tx offset).Decodable s := by
  obtain ⟨hne, hsells, htoken1, htoken2⟩ := hop
  obtain ⟨T, e1', e2', hT, h1, h2, h', hdesc⟩ := fullSpotTrade_spec h hr
  obtain ⟨amounts1, amounts2, -, -, hpayload⟩ := hdesc.payload
  -- the payload has the tokens of the orders
  have hsell1 : (T.new1 tx.trade).tokenSell = tx.trade.tokenId1to2 :=
    hsells.order1 T.order1 hT.taken1
  have hsell2 : (T.new2 tx.trade).tokenSell = tx.trade.tokenId2to1 :=
    hsells.order2 T.order2 hT.taken2
  rw [(fullSpotTrade_raw hr).1.1, hpayload, decodeTx_spotTrade hu
    (Levels.account_lt_u32 (h.lt hT.entry1)) (Levels.account_lt_u32 (h.lt hT.entry2)) htoken1
    htoken2 hsell1 hsell2]
  simp only [Op.effect, Op.Decodable, Except.ok.injEq, DecodedTx.mk.injEq, Option.some.injEq,
    L2BlockQuery.SpotTradeTx.mk.injEq, true_and]
  constructor
  · rintro ⟨-, -, -, hsold1, -, -, -, hsold2⟩
    exact ⟨lt_of_sold hsold1 hT.funds1, lt_of_sold hsold2 hT.funds2⟩
  · rintro ⟨hleaf1, hleaf2⟩
    -- the balances are read as they are stored
    have hold1 {token : ℕ} (htoken : token < 2 ^ lv.balanceLevels) :
        T.e1.balance token = s.balanceOf tx.trade.order1AccountId token := by
      rw [h.balanceOf_eq _ htoken, Ledger.entry_of_some hT.entry1, Entry.balance_of_keyed hT.keyed1]
    have hold2 {token : ℕ} (htoken : token < 2 ^ lv.balanceLevels) :
        T.e2.balance token = s.balanceOf tx.trade.order2AccountId token := by
      rw [h.balanceOf_eq _ htoken, Ledger.entry_of_some hT.entry2, Entry.balance_of_keyed hT.keyed2]
    have hnew := trade_balances h hT ⟨h1, h2, h'⟩ hne
    rw [hnew _ hleaf1, hnew _ hleaf2, hnew _ hleaf1, hnew _ hleaf2]
    simp only [if_neg hT.ne, if_neg hne.symm, if_true, add_sub_cancel_right, hold1 hleaf1,
      hold1 hleaf2, hold2 hleaf1, hold2 hleaf2, and_self]

/-! ## In every reachable state -/

/-- What is decoded is the effect of the transaction exactly if it is decodable. -/
theorem decodeTx_iff (hu : FrToU32.Documented) {n : Node lv} {nTx persistEveryNBlock : ℕ}
    {blockOffset : Option ℕ}
    (hn : Exec.Reachable Node.step (fun _ _ => True)
      (Node.new lv nTx blockOffset persistEveryNBlock) n) {op : Op} (hop : op.Queried n.state)
    {raw : RawTx} (hr : n.state.apply op = .ok (some raw, s')) :
    decodeTx raw.txType raw.payload = .ok (op.effect n.state s') ↔ op.Decodable n.state := by
  obtain ⟨L, h, -⟩ := exists_committed hn
  generalize hraw : some raw = r at hr
  cases GlobalState.applied hr with
  | deposit hr =>
    have hok := Exec.toOption_eq_some_iff.1 hraw.symm
    subst hok
    exact decodeTx_deposit_iff hu h hop.1 hop.2 hr
  | withdraw hr =>
    obtain rfl := Option.some.inj hraw
    exact decodeTx_withdraw_iff hu h hop hr
  | transfer hr =>
    obtain rfl := Option.some.inj hraw
    exact decodeTx_transfer_iff hu h hop.1 hop.2 hr
  | fullSpotTrade hr =>
    obtain rfl := Option.some.inj hraw
    exact decodeTx_fullSpotTrade_iff hu h hop hr
  | _ => exact hop.elim

end Querying

section Example

open L2BlockQuery

attribute [local instance] FluidexCommon.sample FrToU32.sample

theorem decodeTx_iff_fiveForSix :
    ∃ n raw s', Exec.run Node.step (Node.new Levels.small 2 none 9) traders = .ok n ∧
      n.state.apply (.fullSpotTrade .id (fiveForSix 1) none) = .ok (some raw, s') ∧
      (decodeTx raw.txType raw.payload =
          .ok (Op.effect n.state s' (.fullSpotTrade .id (fiveForSix 1) none)) ↔
        (Op.fullSpotTrade .id (fiveForSix 1) none).Decodable n.state) := by
  obtain ⟨⟨n, raw, s'⟩, hn⟩ := Exec.exists_eq_ok (do
    let n ← Exec.run Node.step (Node.new Levels.small 2 none 9) traders
    let o1 ← n.state.takeOrder (some makerOrder) 0 3 "order1"
    let o2 ← n.state.takeOrder (some takerOrder) 1 4 "order2"
    assert (o1 = makerOrder ∧ o2 = takerOrder) "orders"
    let r ← n.state.apply (.fullSpotTrade .id (fiveForSix 1) none)
    let raw ← unwrap r.1
    pure (n, raw, r.2)) (by decide +kernel)
  simp only [Exec.bind_eq_ok_iff, Exec.assert_eq_ok_iff, Exec.unwrap_eq_ok_iff,
    Exec.pure_eq_ok_iff, Prod.mk.injEq] at hn
  obtain ⟨n, hn, _, h1, _, h2, _, ⟨rfl, rfl⟩, ⟨_, s'⟩, hr, raw, rfl, rfl, rfl, rfl⟩ := hn
  have hsells : (fiveForSix 1).SellsTokens n.state :=
    ⟨fun o ho => by rw [← Except.ok.inj (h1.symm.trans ho)]; rfl,
      fun o ho => by rw [← Except.ok.inj (h2.symm.trans ho)]; rfl⟩
  have hqueried : (Op.fullSpotTrade .id (fiveForSix 1) none).Queried n.state :=
    ⟨by decide, hsells, by decide, by decide⟩
  exact ⟨n, raw, s', hn, hr, decodeTx_iff FrToU32.documented_sample
    (Exec.Reachable.init.run (fun _ _ _ => trivial) hn) hqueried hr⟩

/-- The receiver of twenty units had none, but is said to have the ninety of the sender. -/
theorem not_decodeTx_twenty :
    ∃ n raw s' d t, Exec.run Node.step (Node.new Levels.small 2 none 9) fundedOps = .ok n ∧
      n.state.apply (.transfer .id (twentyFrom0 1) none) = .ok (some raw, s') ∧
      decodeTx raw.txType raw.payload = .ok d ∧ d.transferTx = some t ∧
      n.state.getTokenBalance 1 1 = .ok 0 ∧ t.toOldBalance = 70 ∧
      s'.getTokenBalance 1 1 = .ok 20 ∧ t.toNewBalance = 90 ∧
      d ≠ Op.effect n.state s' (.transfer .id (twentyFrom0 1) none) := by
  obtain ⟨⟨n, raw, s', d, t⟩, hn⟩ := Exec.exists_eq_ok (do
    let n ← Exec.run Node.step (Node.new Levels.small 2 none 9) fundedOps
    let r ← n.state.apply (.transfer .id (twentyFrom0 1) none)
    let raw ← unwrap r.1
    let d ← decodeTx raw.txType raw.payload
    let t ← unwrap d.transferTx
    assert (n.state.getTokenBalance 1 1 = .ok 0 ∧ r.2.getTokenBalance 1 1 = .ok 20) "balances"
    assert (t.toOldBalance = 70 ∧ t.toNewBalance = 90 ∧ r.2.balanceOf 1 1 = 20) "decoded"
    pure (n, raw, r.2, d, t)) (by decide +kernel)
  simp only [Exec.bind_eq_ok_iff, Exec.assert_eq_ok_iff, Exec.unwrap_eq_ok_iff,
    Exec.pure_eq_ok_iff, Prod.mk.injEq] at hn
  obtain ⟨n, hn, ⟨_, s'⟩, hr, raw, rfl, d, hd, t, ht, _, ⟨hold, hnew⟩, _, ⟨htold, htnew, hbalance⟩,
    rfl, rfl, rfl, rfl, rfl⟩ := hn
  refine ⟨n, raw, s', d, t, hn, hr, hd, ht, hold, htold, hnew, htnew, fun heffect => ?_⟩
  rw [heffect] at ht
  have ht : t.toNewBalance = s'.balanceOf 1 1 := by rw [← Option.some.inj ht]; rfl
  rw [htnew, hbalance] at ht
  exact absurd ht (by decide)

end Example

end Rollup
