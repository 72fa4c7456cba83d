import Rollup.Balances
import Rollup.Orders

/-!
# Settlement of trades

A trade writes four balances and two orders. It settles exactly (`Settles`) when
the tokens have leaves and no sum reaches the order of the field (`CanSettle`,
`settles_iff`). Nothing checks either: `setValueParallel` writes a leaf out of
range without complaining, where `setValue` panics, and what is read there is the
value of an inner node.
-/

namespace Rollup

section Settlement

variable [FluidexCommon] {lv : Levels} {s s' : GlobalState lv} {L : Ledger lv} {offset : Option ℤ}

/-! ## What settling is -/

/-- The order `o'` is `o` with larger fills. -/
structure Order.Fills (o : Order) (sell buy : Fr) (o' : Order) : Prop where
  same : o' = { o with filledSell := o'.filledSell, filledBuy := o'.filledBuy }
  filledSell : o'.filledSell.val = o.filledSell.val + sell.val
  filledBuy : o'.filledBuy.val = o.filledBuy.val + buy.val

/-- The position of the order of an account, after a trade. -/
def GlobalState.Traded (s' : GlobalState lv) (accountId orderId a pos : ℕ) : Prop :=
  a = accountId ∧ s'.getOrderPosById accountId orderId = some pos

/-- The trade of two orders is settled: the amounts, as integers, are moved from one
    account to the other and added to the fills; nothing else changes, but for a
    closed order whose slot may be taken. -/
structure GlobalState.Settles (s : GlobalState lv) (t : SpotTradeTx) (order1 order2 : Order)
    (s' : GlobalState lv) : Prop where
  sold1 : (s'.balanceOf t.order1AccountId t.tokenId1to2).val + t.amount1to2.val =
    (s.balanceOf t.order1AccountId t.tokenId1to2).val
  bought1 : (s'.balanceOf t.order1AccountId t.tokenId2to1).val =
    (s.balanceOf t.order1AccountId t.tokenId2to1).val + t.amount2to1.val
  sold2 : (s'.balanceOf t.order2AccountId t.tokenId2to1).val + t.amount2to1.val =
    (s.balanceOf t.order2AccountId t.tokenId2to1).val
  bought2 : (s'.balanceOf t.order2AccountId t.tokenId1to2).val =
    (s.balanceOf t.order2AccountId t.tokenId1to2).val + t.amount1to2.val
  otherBalances : ∀ a token, (a ≠ t.order1AccountId ∧ a ≠ t.order2AccountId) ∨
    (token ≠ t.tokenId1to2 ∧ token ≠ t.tokenId2to1) → s'.balanceOf a token = s.balanceOf a token
  filled1 : ∃ new, s'.getAccountOrderById t.order1AccountId t.order1Id = .ok new ∧
    order1.Fills t.amount1to2 t.amount2to1 new
  filled2 : ∃ new, s'.getAccountOrderById t.order2AccountId t.order2Id = .ok new ∧
    order2.Fills t.amount2to1 t.amount1to2 new
  /-- An order is kept, unless it is one of the two orders or its slot has been taken. -/
  kept : ∀ a pos o, s.storedOrder a pos = some o → s'.storedOrder a pos = some o ∨
    (s'.Traded t.order1AccountId t.order1Id a pos ∧ (o = order1 ∨ o.isFilled ∨ o.isActive = false)) ∨
    (s'.Traded t.order2AccountId t.order2Id a pos ∧ (o = order2 ∨ o.isFilled ∨ o.isActive = false))
  /-- No other order appears. -/
  appeared : ∀ a pos o, s'.storedOrder a pos = some o → s.storedOrder a pos = some o ∨
    s'.Traded t.order1AccountId t.order1Id a pos ∨ s'.Traded t.order2AccountId t.order2Id a pos
  accounts : ∀ a, (s'.getAccount a).nonce = (s.getAccount a).nonce ∧
    (s'.getAccount a).sign = (s.getAccount a).sign ∧ (s'.getAccount a).ay = (s.getAccount a).ay

/-- The trades that settle: the tokens have leaves, or nothing of them is traded, and
    the sums are smaller than the field. -/
structure GlobalState.CanSettle (s : GlobalState lv) (t : SpotTradeTx) (order1 order2 : Order) :
    Prop where
  token1to2 : t.tokenId1to2 < 2 ^ lv.balanceLevels ∨ t.amount1to2 = 0
  token2to1 : t.tokenId2to1 < 2 ^ lv.balanceLevels ∨ t.amount2to1 = 0
  bought1 : (s.balanceOf t.order1AccountId t.tokenId2to1).val + t.amount2to1.val < Fr.modulus
  bought2 : (s.balanceOf t.order2AccountId t.tokenId1to2).val + t.amount1to2.val < Fr.modulus
  sell1 : order1.filledSell.val + t.amount1to2.val < Fr.modulus
  buy1 : order1.filledBuy.val + t.amount2to1.val < Fr.modulus
  sell2 : order2.filledSell.val + t.amount2to1.val < Fr.modulus
  buy2 : order2.filledBuy.val + t.amount1to2.val < Fr.modulus

/-! ## The parts of a trade -/

omit [FluidexCommon] in
theorem Order.fills_iff (o : Order) (sell buy : Fr) : o.Fills sell buy (o.tradeWith sell buy) ↔
    o.filledSell.val + sell.val < Fr.modulus ∧ o.filledBuy.val + buy.val < Fr.modulus := by
  rw [← Fr.val_add_eq_iff, ← Fr.val_add_eq_iff]
  exact ⟨fun h => ⟨h.filledSell, h.filledBuy⟩, fun h => ⟨rfl, h.1, h.2⟩⟩

/-- The leaves of an account after a trade of two different tokens. -/
theorem Entry.Trades.getLeaf {e e' : Entry lv} {order : Order} {pos t t' : ℕ} {sell buy x y : Fr}
    (h : e.Trades order pos sell buy [(t, x), (t', y)] e') (hne : t ≠ t') {token : ℕ}
    (htoken : token < 2 ^ lv.balanceLevels) : e'.balanceTree.getLeaf token =
      if token = t then x else if token = t' then y else e.balanceTree.getLeaf token := by
  rw [h.balanceTree_eq, Entry.getLeaf_putBalances _ _ htoken]
  simp only [writes_cons, writes_nil, Function.update_apply]
  by_cases ht : token = t
  · rw [if_pos ht, if_pos ht, if_neg (ht ▸ hne)]
  · rw [if_neg ht, if_neg ht]

/-! ## The trade -/

/-- A balance is sold exactly if there is one, or nothing is sold. -/
theorem sold_iff {a token : ℕ} {amount : Fr}
    (hin : token < 2 ^ lv.balanceLevels → amount.val ≤ (s.balanceOf a token).val ∧
      s'.balanceOf a token = s.balanceOf a token - amount) :
    (s'.balanceOf a token).val + amount.val = (s.balanceOf a token).val ↔
      token < 2 ^ lv.balanceLevels ∨ amount = 0 := by
  by_cases htoken : token < 2 ^ lv.balanceLevels
  · obtain ⟨hle, hbal⟩ := hin htoken
    rw [hbal, ZMod.val_sub hle, Nat.sub_add_cancel hle]
    simp [htoken]
  · rw [s.balanceOf_of_le a htoken, s'.balanceOf_of_le a htoken, ZMod.val_zero, Nat.zero_add,
      ZMod.val_eq_zero]
    simp [htoken]

theorem bought_iff {a token : ℕ} {amount : Fr}
    (hin : token < 2 ^ lv.balanceLevels →
      s'.balanceOf a token = s.balanceOf a token + amount) :
    (s'.balanceOf a token).val = (s.balanceOf a token).val + amount.val ↔
      (token < 2 ^ lv.balanceLevels ∨ amount = 0) ∧
        (s.balanceOf a token).val + amount.val < Fr.modulus := by
  by_cases htoken : token < 2 ^ lv.balanceLevels
  · rw [hin htoken, Fr.val_add_eq_iff]
    simp [htoken]
  · rw [s.balanceOf_of_le a htoken, s'.balanceOf_of_le a htoken, ZMod.val_zero, Nat.zero_add,
      eq_comm, ZMod.val_eq_zero]
    constructor
    · rintro rfl
      exact ⟨.inr rfl, ZMod.val_lt 0⟩
    · exact fun hc => hc.1.resolve_left htoken

variable {schedule : Shuffle Task} {tx : FullSpotTradeTx} {rawTx : RawTx} {order1 order2 : Order}

/-- The balances after a trade of two different tokens. -/
theorem trade_balances (h : Shows s L) {T : Trade lv} {e1' e2' : Entry lv}
    (hT : T.Accepted s L tx) (ht : L.Traded T tx.trade e1' e2' s')
    (hne : tx.trade.tokenId1to2 ≠ tx.trade.tokenId2to1) (a : ℕ) {token : ℕ}
    (htoken : token < 2 ^ lv.balanceLevels) : s'.balanceOf a token =
      if a = tx.trade.order2AccountId then
        if token = tx.trade.tokenId1to2 then s.balanceOf a token + tx.trade.amount1to2
        else if token = tx.trade.tokenId2to1 then s.balanceOf a token - tx.trade.amount2to1
        else s.balanceOf a token
      else if a = tx.trade.order1AccountId then
        if token = tx.trade.tokenId1to2 then s.balanceOf a token - tx.trade.amount1to2
        else if token = tx.trade.tokenId2to1 then s.balanceOf a token + tx.trade.amount2to1
        else s.balanceOf a token
      else s.balanceOf a token := by
  rw [ht.shows.balanceOf_eq a htoken, h.balanceOf_eq a htoken, Ledger.entry_set, Ledger.entry_set]
  rcases eq_or_ne a tx.trade.order2AccountId with rfl | ha2
  · rw [if_pos rfl, if_pos rfl, ht.trades2.getLeaf hne htoken, Ledger.entry_of_some hT.entry2,
      Entry.balance_of_keyed hT.keyed2, Entry.balance_of_keyed hT.keyed2]
    grind
  rcases eq_or_ne a tx.trade.order1AccountId with rfl | ha1
  · rw [if_neg ha2, if_neg ha2, if_pos rfl, if_pos rfl, ht.trades1.getLeaf hne htoken,
      Ledger.entry_of_some hT.entry1, Entry.balance_of_keyed hT.keyed1,
      Entry.balance_of_keyed hT.keyed1]
    grind
  · rw [if_neg ha2, if_neg ha2, if_neg ha1, if_neg ha1]

namespace Ledger.Traded

variable {T : Trade lv} {e1' e2' : Entry lv} (ht : L.Traded T tx.trade e1' e2' s')
  (hT : T.Accepted s L tx)

include ht hT

/-- The nonces and the keys are kept. -/
theorem accounts_eq (h : Shows s L) (a : ℕ) : (s'.getAccount a).nonce = (s.getAccount a).nonce ∧
    (s'.getAccount a).sign = (s.getAccount a).sign ∧ (s'.getAccount a).ay = (s.getAccount a).ay := by
  rw [ht.shows.getAccount_eq, h.getAccount_eq, Ledger.entry_set, Ledger.entry_set]
  rcases eq_or_ne a tx.trade.order2AccountId with rfl | ha2
  · rw [if_pos rfl, ht.trades2.state_eq, Ledger.entry_of_some hT.entry2]
    exact ⟨rfl, rfl, rfl⟩
  rcases eq_or_ne a tx.trade.order1AccountId with rfl | ha1
  · rw [if_neg ha2, if_pos rfl, ht.trades1.state_eq, Ledger.entry_of_some hT.entry1]
    exact ⟨rfl, rfl, rfl⟩
  · rw [if_neg ha2, if_neg ha1]
    exact ⟨rfl, rfl, rfl⟩

/-- The balances are moved exactly when the tokens have leaves, or nothing is traded, and
    the sums are smaller than the field. -/
theorem balances_iff (h : Shows s L) (hne : tx.trade.tokenId1to2 ≠ tx.trade.tokenId2to1) :
    ((s'.balanceOf tx.trade.order1AccountId tx.trade.tokenId1to2).val + tx.trade.amount1to2.val =
          (s.balanceOf tx.trade.order1AccountId tx.trade.tokenId1to2).val ↔
        tx.trade.tokenId1to2 < 2 ^ lv.balanceLevels ∨ tx.trade.amount1to2 = 0) ∧
      ((s'.balanceOf tx.trade.order2AccountId tx.trade.tokenId2to1).val + tx.trade.amount2to1.val =
          (s.balanceOf tx.trade.order2AccountId tx.trade.tokenId2to1).val ↔
        tx.trade.tokenId2to1 < 2 ^ lv.balanceLevels ∨ tx.trade.amount2to1 = 0) ∧
      ((s'.balanceOf tx.trade.order1AccountId tx.trade.tokenId2to1).val =
          (s.balanceOf tx.trade.order1AccountId tx.trade.tokenId2to1).val +
            tx.trade.amount2to1.val ↔
        (tx.trade.tokenId2to1 < 2 ^ lv.balanceLevels ∨ tx.trade.amount2to1 = 0) ∧
          (s.balanceOf tx.trade.order1AccountId tx.trade.tokenId2to1).val +
            tx.trade.amount2to1.val < Fr.modulus) ∧
      ((s'.balanceOf tx.trade.order2AccountId tx.trade.tokenId1to2).val =
          (s.balanceOf tx.trade.order2AccountId tx.trade.tokenId1to2).val +
            tx.trade.amount1to2.val ↔
        (tx.trade.tokenId1to2 < 2 ^ lv.balanceLevels ∨ tx.trade.amount1to2 = 0) ∧
          (s.balanceOf tx.trade.order2AccountId tx.trade.tokenId1to2).val +
            tx.trade.amount1to2.val < Fr.modulus) := by
  have hbal := trade_balances h hT ht hne
  refine ⟨sold_iff fun htoken => ⟨?_, ?_⟩, sold_iff fun htoken => ⟨?_, ?_⟩,
    bought_iff fun htoken => ?_, bought_iff fun htoken => ?_⟩
  · -- What is sold is there, by the check of the trade.
    rw [h.balanceOf_eq _ htoken, Ledger.entry_of_some hT.entry1, ← Entry.balance_of_keyed hT.keyed1]
    exact hT.funds1.le
  · rw [hbal _ htoken, if_neg hT.ne, if_pos rfl, if_pos rfl]
  · rw [h.balanceOf_eq _ htoken, Ledger.entry_of_some hT.entry2, ← Entry.balance_of_keyed hT.keyed2]
    exact hT.funds2.le
  · rw [hbal _ htoken, if_pos rfl, if_neg hne.symm, if_pos rfl]
  · rw [hbal _ htoken, if_neg hT.ne, if_pos rfl, if_neg hne.symm, if_pos rfl]
  · rw [hbal _ htoken, if_pos rfl, if_pos rfl]

/-- The other balances are kept. -/
theorem balances_of_ne (h : Shows s L) (hne : tx.trade.tokenId1to2 ≠ tx.trade.tokenId2to1)
    {a token : ℕ} (ha : (a ≠ tx.trade.order1AccountId ∧ a ≠ tx.trade.order2AccountId) ∨
      (token ≠ tx.trade.tokenId1to2 ∧ token ≠ tx.trade.tokenId2to1)) :
    s'.balanceOf a token = s.balanceOf a token := by
  refine GlobalState.balanceOf_congr fun htoken => ?_
  rw [trade_balances h hT ht hne a htoken]
  rcases ha with ⟨ha1, ha2⟩ | ⟨ht1, ht2⟩
  · rw [if_neg ha2, if_neg ha1]
  · simp only [if_neg ht1, if_neg ht2, ite_self]

/-- An order is kept, or it is at the position of one of the two orders. -/
theorem kept (h : Shows s L) (hids1 : T.order1.HasIds tx.trade.order1AccountId tx.trade.order1Id)
    (hids2 : T.order2.HasIds tx.trade.order2AccountId tx.trade.order2Id) {a pos : ℕ} {o : Order}
    (ho : s.storedOrder a pos = some o) : s'.storedOrder a pos = some o ∨
      (s'.Traded tx.trade.order1AccountId tx.trade.order1Id a pos ∧
        (o = T.order1 ∨ o.isFilled ∨ o.isActive = false)) ∨
      (s'.Traded tx.trade.order2AccountId tx.trade.order2Id a pos ∧
        (o = T.order2 ∨ o.isFilled ∨ o.isActive = false)) := by
  by_cases h1 : a = tx.trade.order1AccountId ∧ pos = T.pos1
  · obtain ⟨rfl, rfl⟩ := h1
    rw [h.storedOrder_of_some hT.entry1] at ho
    refine .inr (.inl ⟨⟨rfl, hids1.2 ▸ (ht.trades1.found ht.shows (entry1 hT)).1⟩, ?_⟩)
    have hown : ∀ p, T.e1.orderPos T.order1.orderId = some p → T.order1 = T.e1.orderAt p :=
      fun p => hT.takes1.eq_orderAt hT.entry1 hids1
    exact (ht.trades1.replaced hown ho).imp_right And.left
  by_cases h2 : a = tx.trade.order2AccountId ∧ pos = T.pos2
  · obtain ⟨rfl, rfl⟩ := h2
    rw [h.storedOrder_of_some hT.entry2] at ho
    refine .inr (.inr ⟨⟨rfl, hids2.2 ▸ (ht.trades2.found ht.shows (Ledger.set_self _ _ _)).1⟩, ?_⟩)
    have hown : ∀ p, T.e2.orderPos T.order2.orderId = some p → T.order2 = T.e2.orderAt p :=
      fun p => hT.takes2.eq_orderAt hT.entry2 hids2
    exact (ht.trades2.replaced hown ho).imp_right And.left
  · left
    rw [ht.storedOrder_eq hT h (fun ha hp => h1 ⟨ha, hp⟩) fun ha hp => h2 ⟨ha, hp⟩, ho]

/-- Only the two orders may appear. -/
theorem appeared (h : Shows s L)
    (hids1 : T.order1.HasIds tx.trade.order1AccountId tx.trade.order1Id)
    (hids2 : T.order2.HasIds tx.trade.order2AccountId tx.trade.order2Id) {a pos : ℕ} {o : Order}
    (ho : s'.storedOrder a pos = some o) : s.storedOrder a pos = some o ∨
      s'.Traded tx.trade.order1AccountId tx.trade.order1Id a pos ∨
      s'.Traded tx.trade.order2AccountId tx.trade.order2Id a pos := by
  by_cases h1 : a = tx.trade.order1AccountId ∧ pos = T.pos1
  · obtain ⟨rfl, rfl⟩ := h1
    exact .inr (.inl ⟨rfl, hids1.2 ▸ (ht.trades1.found ht.shows (entry1 hT)).1⟩)
  by_cases h2 : a = tx.trade.order2AccountId ∧ pos = T.pos2
  · obtain ⟨rfl, rfl⟩ := h2
    exact .inr (.inr ⟨rfl, hids2.2 ▸ (ht.trades2.found ht.shows (Ledger.set_self _ _ _)).1⟩)
  · left
    rwa [ht.storedOrder_eq hT h (fun ha hp => h1 ⟨ha, hp⟩) fun ha hp => h2 ⟨ha, hp⟩] at ho

end Ledger.Traded

/-- In every reachable state, an accepted trade of two different tokens and of orders
    with the ids of the trade settles exactly when it can. -/
theorem settles_iff {n : Node lv} {nTx persistEveryNBlock : ℕ} {blockOffset : Option ℕ}
    (hn : Exec.Reachable Node.step (fun _ _ => True)
      (Node.new lv nTx blockOffset persistEveryNBlock) n)
    (hne : tx.trade.tokenId1to2 ≠ tx.trade.tokenId2to1)
    (h1 : n.state.takeOrder tx.makerOrder tx.trade.order1AccountId tx.trade.order1Id "order1" =
      .ok order1)
    (h2 : n.state.takeOrder tx.takerOrder tx.trade.order2AccountId tx.trade.order2Id "order2" =
      .ok order2)
    (hids1 : order1.HasIds tx.trade.order1AccountId tx.trade.order1Id)
    (hids2 : order2.HasIds tx.trade.order2AccountId tx.trade.order2Id)
    (hr : n.state.fullSpotTrade schedule tx offset = .ok (rawTx, s')) :
    (∀ o ∈ tx.makerOrder, order1 = o ∧ o.filledSell = 0 ∧ o.filledBuy = 0) ∧
      (∀ o ∈ tx.takerOrder, order2 = o ∧ o.filledSell = 0 ∧ o.filledBuy = 0) ∧
      (n.state.Settles tx.trade order1 order2 s' ↔ n.state.CanSettle tx.trade order1 order2) := by
  obtain ⟨L, h, -⟩ := exists_committed hn
  obtain ⟨T, e1', e2', hT, ht⟩ := fullSpotTrade_traded h hr
  obtain rfl := Except.ok.inj (hT.taken1.symm.trans h1)
  obtain rfl := Except.ok.inj (hT.taken2.symm.trans h2)
  refine ⟨fun o ho => ?_, fun o ho => ?_, ?_⟩
  · have htakes := hT.takes1
    rw [Option.mem_def.1 ho] at htakes
    exact ⟨htakes.1, htakes.2.2.1, htakes.2.1⟩
  · have htakes := hT.takes2
    rw [Option.mem_def.1 ho] at htakes
    exact ⟨htakes.1, htakes.2.2.1, htakes.2.1⟩
  -- The balances of the two tokens say one half of the claim, the orders the other.
  obtain ⟨hsold1, hsold2, hbought1, hbought2⟩ := ht.balances_iff hT h hne
  have hfound1 := ht.trades1.getAccountOrderById_self ht.shows (Ledger.Traded.entry1 hT)
  have hfound2 := ht.trades2.getAccountOrderById_self ht.shows (Ledger.set_self _ _ _)
  rw [hids1.2] at hfound1
  rw [hids2.2] at hfound2
  -- Each sum is the one of the numbers exactly if it does not wrap around.
  constructor
  · intro hs
    obtain ⟨new1, hnew1, hfills1⟩ := hs.filled1
    obtain ⟨new2, hnew2, hfills2⟩ := hs.filled2
    obtain rfl := Except.ok.inj (hfound1.symm.trans hnew1)
    obtain rfl := Except.ok.inj (hfound2.symm.trans hnew2)
    obtain ⟨hsell1, hbuy1⟩ := (Order.fills_iff _ _ _).1 hfills1
    obtain ⟨hsell2, hbuy2⟩ := (Order.fills_iff _ _ _).1 hfills2
    exact ⟨hsold1.1 hs.sold1, hsold2.1 hs.sold2, (hbought1.1 hs.bought1).2,
      (hbought2.1 hs.bought2).2, hsell1, hbuy1, hsell2, hbuy2⟩
  · intro hc
    exact
      { sold1 := hsold1.2 hc.token1to2
        bought1 := hbought1.2 ⟨hc.token2to1, hc.bought1⟩
        sold2 := hsold2.2 hc.token2to1
        bought2 := hbought2.2 ⟨hc.token1to2, hc.bought2⟩
        otherBalances := fun a token => ht.balances_of_ne hT h hne
        filled1 := ⟨_, hfound1, (Order.fills_iff _ _ _).2 ⟨hc.sell1, hc.buy1⟩⟩
        filled2 := ⟨_, hfound2, (Order.fills_iff _ _ _).2 ⟨hc.sell2, hc.buy2⟩⟩
        kept := fun a pos o => ht.kept hT h hids1 hids2
        appeared := fun a pos o => ht.appeared hT h hids1 hids2
        accounts := ht.accounts_eq hT h }

end Settlement

/-- Two accounts with keys, the first one with ninety units of the token `1`, the second
    one with fifty units of the token `0`. -/
def traders : List Op :=
  [.keyUpdate ⟨0, ⟨1, 1, 5⟩⟩ none, .deposit ⟨0, 1, 90, none⟩ none, .keyUpdate ⟨1, ⟨2, 0, 6⟩⟩ none,
    .deposit ⟨1, 0, 50, none⟩ none]

/-- An order of account 0, selling ten of the token 1. -/
def makerOrder : Order := { Order.default with orderId := 3, tokenSell := 1, totalSell := 10 }

/-- An order of account 1, buying five of the token 1. -/
def takerOrder : Order :=
  { Order.default with accountId := 1, orderId := 4, tokenBuy := 1, totalBuy := 5 }

/-- Five units of a token of the first account against six of the token `0`. -/
def fiveForSix (tokenId : ℕ) : FullSpotTradeTx :=
  ⟨⟨0, 1, tokenId, 0, 5, 6, 3, 4⟩, some makerOrder, some takerOrder⟩

attribute [local instance] FluidexCommon.sample in
theorem settles_iff_fiveForSix :
    ∃ n rawTx s', Exec.run Node.step (Node.new Levels.small 2 none 9) traders = .ok n ∧
      n.state.fullSpotTrade .id (fiveForSix 1) none = .ok (rawTx, s') ∧
      (n.state.Settles (fiveForSix 1).trade makerOrder takerOrder s' ↔
        n.state.CanSettle (fiveForSix 1).trade makerOrder takerOrder) := by
  obtain ⟨⟨n, r⟩, hn⟩ := Exec.exists_eq_ok (do
    let n ← Exec.run Node.step (Node.new Levels.small 2 none 9) traders
    let o1 ← n.state.takeOrder (some makerOrder) 0 3 "order1"
    let o2 ← n.state.takeOrder (some takerOrder) 1 4 "order2"
    assert (o1 = makerOrder ∧ o2 = takerOrder) "orders"
    let r ← n.state.fullSpotTrade .id (fiveForSix 1) none
    pure (n, r)) (by decide +kernel)
  simp only [Exec.bind_eq_ok_iff, Exec.assert_eq_ok_iff, Exec.pure_eq_ok_iff, Prod.mk.injEq] at hn
  obtain ⟨n, hn, _, h1, _, h2, _, ⟨rfl, rfl⟩, ⟨rawTx, s'⟩, hr, rfl, -⟩ := hn
  obtain ⟨-, -, hiff⟩ := settles_iff (Exec.Reachable.init.run (fun _ _ _ => trivial) hn)
    (by decide) h1 h2 (by decide) (by decide) hr
  exact ⟨n, rawTx, s', hn, hr, hiff⟩

attribute [local instance] FluidexCommon.sample in
/-- The balance trees have four leaves: at the place of the token `4`, an inner node is
    read and written, and overwritten when the leaves below it are. -/
theorem not_settles_out_of_range :
    ∃ n rawTx s' before after,
      Exec.run Node.step (Node.new Levels.small 2 none 9) traders = .ok n ∧
      n.state.fullSpotTrade .id (fiveForSix 4) none = .ok (rawTx, s') ∧
      makerOrder.HasIds 0 3 ∧ takerOrder.HasIds 1 4 ∧
      n.state.getTokenBalance 0 4 = .ok before ∧ s'.getTokenBalance 0 4 = .ok after ∧
      after ≠ before - 5 ∧ ¬n.state.Settles (fiveForSix 4).trade makerOrder takerOrder s' := by
  obtain ⟨⟨n, r, before, after⟩, hn⟩ := Exec.exists_eq_ok (do
    let n ← Exec.run Node.step (Node.new Levels.small 2 none 9) traders
    let r ← n.state.fullSpotTrade .id (fiveForSix 4) none
    let before ← n.state.getTokenBalance 0 4
    let after ← r.2.getTokenBalance 0 4
    assert (after ≠ before - 5) "balances"
    pure (n, r, before, after)) (by decide +kernel)
  simp only [Exec.bind_eq_ok_iff, Exec.assert_eq_ok_iff, Exec.pure_eq_ok_iff, Prod.mk.injEq] at hn
  obtain ⟨n, hn, ⟨rawTx, s'⟩, hr, before, hbefore, after, hafter, _, hne, rfl, -, -, -⟩ := hn
  refine ⟨n, rawTx, s', before, after, hn, hr, by decide, by decide, hbefore, hafter, hne,
    fun hs => ?_⟩
  have hout : ¬4 < 2 ^ Levels.small.balanceLevels := by decide
  have hsold : (s'.balanceOf 0 4).val + (5 : Fr).val = (n.state.balanceOf 0 4).val := hs.sold1
  rw [n.state.balanceOf_of_le 0 hout, s'.balanceOf_of_le 0 hout] at hsold
  exact absurd hsold (by decide)

end Rollup
