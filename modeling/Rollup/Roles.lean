import Rollup.Commuting
import Rollup.Handling
import Rollup.Trading
import Rollup.Tree.Swap

/-!
# The roles of a trade

Which side of a trade is the maker only decides which of them comes first: the account, the
order and the amounts of the other one follow. The accounts being different, what is checked
and what is stored is the same (`Trade.Allowed.swap`), except that the two balances of an
account are written in the other order (`Entry.TradesAt.swap`). So it does not matter as long
as both tokens have a leaf: the tree is then the same up to the order in which its nodes are
stored. A trade that is refused before its balances are written is refused with the other side
first as well (`GlobalState.CanTrade.swap`), so then it does not matter either
(`roles_handleTradeMsg`).

The balance of a token without a leaf is an inner node, which the other write recomputes, or
not, depending on the order: nothing checks the index (`not_roles_ethYfi`).
-/

namespace Rollup

section Roles

variable [FluidexCommon] {lv : Levels} {s s' : GlobalState lv} {L M : Ledger lv} {a : ℕ}
  {e e' : Entry lv}

open Exec (Related)
open Messages (MarketRole)

/-! ## Entries up to the order of the nodes -/

/-- The entries only differ by the order in which the nodes of their balance trees are stored. -/
structure Entry.Same (e e' : Entry lv) : Prop where
  state : e.state = e'.state
  balanceTree : e.balanceTree.Same e'.balanceTree
  orderTree : e.orderTree = e'.orderTree
  orders : e.orders = e'.orders
  orderPos : e.orderPos = e'.orderPos
  nextOrderPos : e.nextOrderPos = e'.nextOrderPos

namespace Entry.Same

omit [FluidexCommon]

theorem refl (e : Entry lv) : e.Same e := ⟨rfl, ⟨rfl, fun _ => rfl⟩, rfl, rfl, rfl, rfl⟩

theorem alike (h : e.Same e') : e.Alike e' where
  state := h.state
  balances token _ := h.balanceTree.getValue_eq 0 token
  orderTree := h.orderTree
  orders := h.orders
  orderPos := h.orderPos
  nextOrderPos := h.nextOrderPos

theorem balance_eq (h : e.Same e') (token : ℕ) : e.balance token = e'.balance token := by
  rw [balance, balance, h.state]
  exact if_congr Iff.rfl rfl (h.balanceTree.getValue_eq 0 token)

end Entry.Same

omit [FluidexCommon] in
theorem rel_alike {o o' : Option (Entry lv)} (h : Option.Rel Entry.Same o o') :
    Option.Rel Entry.Alike o o' := by
  cases h with
  | some hs => exact .some hs.alike
  | none => exact .none

/-- What is read in states that show such entries is the same. -/
theorem GlobalState.ReadsSame.of_same (h : Shows s L) (h' : Shows s' M)
    (hLM : ∀ a, Option.Rel Entry.Same (L a) (M a)) : s.ReadsSame s' := by
  have hpos (a orderId : ℕ) : s.getOrderPosById a orderId = s'.getOrderPosById a orderId := by
    rw [h.getOrderPosById_entry, h'.getOrderPosById_entry, (entry_rel .refl (hLM a)).orderPos]
  have hhas (a orderId : ℕ) : s.hasOrder a orderId ↔ s'.hasOrder a orderId := by
    rw [GlobalState.hasOrder, GlobalState.hasOrder, ← AList.lookup_isSome, ← AList.lookup_isSome]
    exact iff_of_eq (congrArg (fun o : Option ℕ => o.isSome = true) (hpos a orderId))
  refine ⟨fun a token => ?_, hhas, fun a orderId => ?_⟩
  · rw [h.getTokenBalance_eq, h'.getTokenBalance_eq, (entry_rel .refl (hLM a)).balance_eq]
  · have horders : s.orderStates.lookup a = s'.orderStates.lookup a := by
      rw [h.orderStates, h'.orderStates]
      exact map_eq_of_rel (hLM a) fun _ _ h => h.orders
    simp only [GlobalState.getAccountOrderById, GlobalState.getAccountOrderByPos, hpos, hhas,
      horders]

/-! ## The other side first -/

/-- The same trade, its two parties named in the other order. -/
def SpotTradeTx.swap (t : SpotTradeTx) : SpotTradeTx where
  order1AccountId := t.order2AccountId
  order2AccountId := t.order1AccountId
  tokenId1to2 := t.tokenId2to1
  tokenId2to1 := t.tokenId1to2
  amount1to2 := t.amount2to1
  amount2to1 := t.amount1to2
  order1Id := t.order2Id
  order2Id := t.order1Id

/-- The same trade, with the order of each party still its own. -/
def FullSpotTradeTx.swap (tx : FullSpotTradeTx) : FullSpotTradeTx :=
  ⟨tx.trade.swap, tx.takerOrder, tx.makerOrder⟩

/-- The same accounts, orders and slots, named in the other order. -/
def Trade.swap (T : Trade lv) : Trade lv := ⟨T.e2, T.e1, T.order2, T.order1, T.pos2, T.pos1⟩

theorem Trade.Allowed.swap {T : Trade lv} {tx : FullSpotTradeTx} (h : T.Allowed L tx) :
    T.swap.Allowed L tx.swap where
  ne := h.ne.symm
  entry1 := h.entry2
  entry2 := h.entry1
  keyed1 := h.keyed2
  keyed2 := h.keyed1
  takes1 := h.takes2
  takes2 := h.takes1
  funds1 := h.funds2
  funds2 := h.funds1
  totals1 := h.totals2
  totals2 := h.totals1

/-- The two balances of an account can be written in either order. -/
theorem Entry.TradesAt.swap {order : Order} {pos : ℕ} {sell buy : Fr} {u v : ℕ × Fr}
    (h : e.TradesAt order pos sell buy [u, v] e') (hu : u.1 < 2 ^ lv.balanceLevels)
    (hv : v.1 < 2 ^ lv.balanceLevels) (hne : u.1 ≠ v.1) :
    ∃ e'', e.TradesAt order pos sell buy [v, u] e'' ∧ e'.Same e'' := by
  obtain ⟨placed, ot, hf, hot, rfl⟩ := h
  have htree : ((placed.balanceTree.put u.1 u.2).put v.1 v.2).Same
      ((placed.balanceTree.put v.1 v.2).put u.1 u.2) :=
    Tree.put_comm placed.balanceTree hu hv hne u.2 v.2
  refine ⟨_, ⟨placed, ot, hf, hot, rfl⟩, ⟨?_, htree, rfl, rfl, rfl, rfl⟩⟩
  exact congrArg (fun root => { placed.state with
    balanceRoot := root
    orderRoot := ot.getRoot }) (htree.getValue_eq lv.balanceLevels 0)

/-- A trade that is accepted is accepted with the other side first. -/
theorem exists_fullSpotTrade_swap (h : Shows s L) {schedule : Shuffle Task}
    {tx : FullSpotTradeTx} {offset : Option ℤ} (hne : tx.trade.tokenId1to2 ≠ tx.trade.tokenId2to1)
    (h1 : tx.trade.tokenId1to2 < 2 ^ lv.balanceLevels)
    (h2 : tx.trade.tokenId2to1 < 2 ^ lv.balanceLevels) {rawTx : RawTx}
    (hr : s.fullSpotTrade schedule tx offset = .ok (rawTx, s')) (schedule' : Shuffle Task) :
    ∃ r, s.fullSpotTrade schedule' tx.swap offset = .ok r ∧ s'.ObsEq r.2 ∧ s'.ReadsSame r.2 := by
  obtain ⟨T, e1', e2', hT, ht1, ht2, h', hraw⟩ := fullSpotTrade_exact h hr
  -- each account writes its two balances in the other order
  obtain ⟨e1'', ht1', hs1⟩ := ht1.swap h1 h2 hne
  obtain ⟨e2'', ht2', hs2⟩ := ht2.swap h1 h2 hne
  have hswap := (hT.allowed hraw).swap
  obtain ⟨r, hr', hshows⟩ := exists_fullSpotTrade h hswap ht2' ht1' schedule'
  -- up to the order of the nodes, the accounts have the same entries
  have hLM (a : ℕ) : Option.Rel Entry.Same
      ((L.set tx.trade.order1AccountId e1').set tx.trade.order2AccountId e2' a)
      ((L.set tx.trade.order2AccountId e2'').set tx.trade.order1AccountId e1'' a) := by
    rw [Ledger.set_comm L hT.ne.symm]
    simp only [Ledger.set_apply]
    split
    · exact .some hs2
    · split
      · exact .some hs1
      · exact rel_refl .refl (L a)
  exact ⟨r, hr', .of_alike h' hshows fun a => rel_alike (hLM a), .of_same h' hshows hLM⟩

/-- What a trade needs is there for the other side first as well. -/
theorem GlobalState.CanTrade.swap (h : Shows s L) {tx : FullSpotTradeTx} {order1 order2 : Order}
    (hc : s.CanTrade tx order1 order2) : s.CanTrade tx.swap order2 order1 where
  ne := hc.ne.symm
  keyed1 := hc.keyed2
  keyed2 := hc.keyed1
  taken1 := (takeOrder_eq_ok_iff h).2 ((takeOrder_eq_ok_iff h).1 hc.taken2)
  taken2 := (takeOrder_eq_ok_iff h).2 ((takeOrder_eq_ok_iff h).1 hc.taken1)
  totals1 := hc.totals2
  totals2 := hc.totals1
  funds1 := hc.funds2
  funds2 := hc.funds1
  fits1 := hc.fits2
  fits2 := hc.fits1

/-- With the other side first, a trade is accepted or not, and what it leads to is the same. -/
theorem fullSpotTrade_related (h : Shows s L) (hL : ∀ a e, L a = some e → e.Tidy)
    (schedule schedule' : Shuffle Task) (tx : FullSpotTradeTx) (offset : Option ℤ)
    (hne : tx.trade.tokenId1to2 ≠ tx.trade.tokenId2to1)
    (hcond : (tx.trade.tokenId1to2 < 2 ^ lv.balanceLevels ∧
        tx.trade.tokenId2to1 < 2 ^ lv.balanceLevels) ∨
      ¬∃ order1 order2, s.CanTrade tx order1 order2) :
    Related (fun r r' => r.2.ObsEq r'.2 ∧ r.2.ReadsSame r'.2)
      (s.fullSpotTrade schedule tx offset) (s.fullSpotTrade schedule' tx.swap offset) := by
  rcases hcond with ⟨h1, h2⟩ | hrefused
  · refine .of_ok (fun r hr => exists_fullSpotTrade_swap h hne h1 h2 hr schedule') fun r hr => ?_
    obtain ⟨r', hr', -⟩ := exists_fullSpotTrade_swap h hne.symm h2 h1 hr schedule
    exact ⟨r', hr'⟩
  · -- refused with either side first
    refine .of_ok (fun r hr => ?_) fun r hr => ?_
    · exact absurd ((exists_fullSpotTrade_iff h hL).1 ⟨r, hr⟩) hrefused
    · obtain ⟨order2, order1, hc⟩ := (exists_fullSpotTrade_iff h hL).1 ⟨r, hr⟩
      exact absurd ⟨order1, order2, hc.swap h⟩ hrefused

/-! ## Messages -/

variable [RustDecimal] [Babyjubjub] [DecimalExt]

omit [FluidexCommon] [Babyjubjub] [DecimalExt] in
/-- The message with the roles of the ask side and of the bid side. -/
def Message.withRoles (message : Message TradeMessage) (ask bid : MarketRole) :
    Message TradeMessage :=
  { message with message := { message.message with
    askRole := ask
    bidRole := bid } }

/-- Both tokens of the market have a leaf. -/
def TokensInRange (lv : Levels) (market : String) : Prop :=
  ∀ ids, TokenIdPair.from market = .ok ids →
    ids.1 < 2 ^ lv.balanceLevels ∧ ids.2 < 2 ^ lv.balanceLevels

instance (lv : Levels) (market : String) : Decidable (TokensInRange lv market) :=
  inferInstanceAs (Decidable (∀ _, _ = _ → _))

/-- The message gets to the point where the balances are written: the state is as it says, its
    orders are signed and new, its amounts are converted, and there is what its trade needs. -/
def Processor.ReachesWrites (p : Processor) (s : GlobalState lv) (trade : TradeMessage) : Prop :=
  checkState s trade trade.stateBefore = .ok () ∧
    ∃ askOrder bidOrder spotTx, p.sideOrder s trade.askOrder = .ok askOrder ∧
      p.sideOrder s trade.bidOrder = .ok bidOrder ∧ p.tradeIntoSpotTx trade = .ok spotTx ∧
      let orders := withRole (withRole (none, none) trade.askRole askOrder) trade.bidRole bidOrder
      ∃ order1 order2, s.CanTrade ⟨spotTx, orders.1, orders.2⟩ order1 order2

omit [RustDecimal] [Babyjubjub] [DecimalExt] in
theorem Node.step_fullSpotTrade_related {n : Node lv} (h : Shows n.state L)
    (hL : ∀ a e, L a = some e → e.Tidy) (schedule schedule' : Shuffle Task) (tx : FullSpotTradeTx)
    (offset : Option ℤ) (hne : tx.trade.tokenId1to2 ≠ tx.trade.tokenId2to1)
    (hcond : (tx.trade.tokenId1to2 < 2 ^ lv.balanceLevels ∧
        tx.trade.tokenId2to1 < 2 ^ lv.balanceLevels) ∨
      ¬∃ order1 order2, n.state.CanTrade tx order1 order2) :
    Related (fun n₁ n₂ : Node lv => n₁.state.ObsEq n₂.state ∧ n₁.state.ReadsSame n₂.state)
      (n.step (.fullSpotTrade schedule tx offset)) (n.step (.fullSpotTrade schedule' tx.swap offset)) := by
  have happly : Related (fun r r' : Option RawTx × GlobalState lv =>
      r.2.ObsEq r'.2 ∧ r.2.ReadsSame r'.2)
      (n.state.apply (.fullSpotTrade schedule tx offset))
      (n.state.apply (.fullSpotTrade schedule' tx.swap offset)) :=
    (fullSpotTrade_related h hL schedule schedule' tx offset hne hcond).bind
      fun _ _ hr => .pure_pure hr
  refine happly.bind fun r r' hr => .pure_pure ?_
  rwa [Node.emit_state, Node.emit_state]

namespace Processor

variable (p : Processor)

omit [FluidexCommon] [RustDecimal] [Babyjubjub] [DecimalExt] in
theorem withRole_maker_taker (ask bid : Option Order) :
    withRole (withRole (none, none) .maker ask) .taker bid = (ask, bid) := by
  cases ask <;> cases bid <;> rfl

omit [FluidexCommon] [RustDecimal] [Babyjubjub] [DecimalExt] in
theorem withRole_taker_maker (ask bid : Option Order) :
    withRole (withRole (none, none) .taker ask) .maker bid = (bid, ask) := by
  cases ask <;> cases bid <;> rfl

omit [FluidexCommon] [Babyjubjub] [DecimalExt] in
/-- The maker is the other side, the tokens being those of the market. -/
theorem tradeIntoSpotTx_related (message : Message TradeMessage) (bid bid' : MarketRole) :
    Related (fun t t' => t' = t.swap ∧
        TokenIdPair.from message.message.market = .ok (t.tokenId1to2, t.tokenId2to1))
      (p.tradeIntoSpotTx (message.withRoles .maker bid).message)
      (p.tradeIntoSpotTx (message.withRoles .taker bid').message) := by
  refine .bind_self fun ids hids => ?_
  obtain ⟨baseTokenId, quoteTokenId⟩ := ids
  -- the amounts are converted in the other order
  have hcomm := Related.bind_comm (S := fun (t t' : SpotTradeTx) => t' = t.swap ∧
      TokenIdPair.from message.message.market = .ok (t.tokenId1to2, t.tokenId2to1))
    (precTokenId baseTokenId >>= fun prec => RustDecimal.toFr message.message.amount prec)
    (precTokenId quoteTokenId >>= fun prec => RustDecimal.toFr message.message.quoteAmount prec)
    (f := fun amount quoteAmount => {
      order1AccountId := message.message.askUserId
      order2AccountId := message.message.bidUserId
      tokenId1to2 := baseTokenId
      tokenId2to1 := quoteTokenId
      amount1to2 := amount
      amount2to1 := quoteAmount
      order1Id := asU32 message.message.askOrderId
      order2Id := asU32 message.message.bidOrderId })
    (fun _ _ => ⟨rfl, hids⟩)
  simp only [bind_assoc] at hcomm
  exact hcomm

/-- Handling a trade of two different tokens does the same whichever side is the maker, if both
    tokens have a leaf, or if it is refused before the balances are written. -/
theorem roles_handleTradeMsg {n : Node lv} {allowed : Node lv → Op → Prop}
    {nTx persistEveryNBlock : ℕ} {blockOffset : Option ℕ}
    (hn : Exec.Reachable Node.step allowed (Node.new lv nTx blockOffset persistEveryNBlock) n)
    (message : Message TradeMessage)
    (hne : ∀ ids, TokenIdPair.from message.message.market = .ok ids → ids.1 ≠ ids.2)
    (hcond : TokensInRange lv message.message.market ∨
      ¬p.ReachesWrites n.state (message.withRoles .maker .taker).message)
    (schedule schedule' : Shuffle Task) :
    Related (fun n₁ n₂ : Node lv => n₁.state.ObsEq n₂.state)
      (p.handleTradeMsg n schedule (message.withRoles .maker .taker))
      (p.handleTradeMsg n schedule' (message.withRoles .taker .maker)) := by
  obtain ⟨L, h, hL⟩ := exists_tidy hn
  have hcheck (n₁ n₂ : Node lv) (hn : n₁.state.ReadsSame n₂.state) (state : Option VerboseTradeState) :
      checkState n₁.state (message.withRoles .maker .taker).message state =
        checkState n₂.state (message.withRoles .taker .maker).message state :=
    hn.checkState_eq rfl state
  have hreads : n.state.ReadsSame n.state := ⟨fun _ _ => rfl, fun _ _ => Iff.rfl, fun _ _ => rfl⟩
  rw [handleTradeMsg]
  dsimp only
  rw [hcheck n n hreads]
  refine .bind_self fun _ hbefore => .bind_self fun askOrder hask =>
    .bind_self fun bidOrder hbid => ?_
  refine (p.tradeIntoSpotTx_related message .taker .maker).eqs.bind fun t t' ht => ?_
  obtain ⟨⟨rfl, hids⟩, htx, -⟩ := ht
  -- the supplied orders are those of the ask side and of the bid side
  have hmaker := withRole_maker_taker askOrder bidOrder
  have htaker := withRole_taker_maker askOrder bidOrder
  have hcond' : (t.tokenId1to2 < 2 ^ lv.balanceLevels ∧ t.tokenId2to1 < 2 ^ lv.balanceLevels) ∨
      ¬∃ order1 order2, n.state.CanTrade ⟨t, askOrder, bidOrder⟩ order1 order2 := by
    refine hcond.imp (fun htokens => htokens _ hids) fun hrefused hc => hrefused ?_
    refine ⟨(hcheck n n hreads _).trans hbefore, askOrder, bidOrder, t, hask, hbid, htx, ?_⟩
    dsimp only [Message.withRoles]
    rwa [hmaker]
  have hstep := Node.step_fullSpotTrade_related h hL schedule schedule' ⟨t, askOrder, bidOrder⟩
    message.offset (hne _ hids) hcond'
  dsimp only [Message.withRoles] at hcheck ⊢
  rw [hmaker, htaker]
  refine hstep.bind fun n₁ n₂ hn => ?_
  rw [hcheck n₁ n₂ hn.2]
  exact .bind_self fun _ _ => .pure_pure hn.1

end Processor

end Roles

/-! ## Two markets, on balance trees of four leaves -/

section Example

attribute [local instance] FluidexCommon.sample RustDecimal.sample Babyjubjub.sample
  DecimalExt.sample

/-- The account `0` buys `ETH` of the account `1`. -/
def ethBuyers : List Op :=
  [.keyUpdate ⟨0, ⟨1, 1, 5⟩⟩ none, .deposit ⟨0, 1, 70, none⟩ none, .deposit ⟨0, 2, 90, none⟩ none,
    .keyUpdate ⟨1, ⟨2, 0, 6⟩⟩ none, .deposit ⟨1, 0, 50, none⟩ none]

/-- An order on five units of `ETH` against six units of the other token. -/
def ethOrder (market : String) (id user : ℕ) (side : Messages.OrderSide) (sells buys : Fr × Fr) :
    Messages.Order where
  id := id
  market := market
  side := side
  user := user
  price := (6 / 5 : ℚ)
  amount := (5 / 10000 : ℚ)
  finishedBase := (0 : ℚ)
  finishedQuote := (0 : ℚ)
  signature := Babyjubjub.sampleSign
    (Fr.hash [TxType.placeOrder.toFr, sells.1, buys.1, sells.2, buys.2]) (5 + user)

/-- The trade of two new orders, each signed by its user. -/
def ethTrade (market : String) (quoteTokenId : Fr) : Message TradeMessage where
  offset := none
  message := {
    market := market
    amount := (5 / 10000 : ℚ)
    quoteAmount := (6 / 10000 : ℚ)
    askUserId := 1
    askOrderId := 4
    askRole := .maker
    bidUserId := 0
    bidOrderId := 3
    bidRole := .taker
    bidOrder := some (ethOrder market 3 0 .bid (quoteTokenId, 6) (0, 5))
    askOrder := some (ethOrder market 4 1 .ask (0, 5) (quoteTokenId, 6))
    stateBefore := none
    stateAfter := none }

theorem roles_ethUni : ∃ n n₁ n₂,
    Exec.run Node.step (Node.new Levels.small 2 none 9) ethBuyers = .ok n ∧
    Processor.default.handleTradeMsg n .id ((ethTrade "ETH_UNI" 2).withRoles .maker .taker) =
      .ok n₁ ∧
    Processor.default.handleTradeMsg n .reverse
      ((ethTrade "ETH_UNI" 2).withRoles .taker .maker) = .ok n₂ ∧
    n₁.state.ObsEq n₂.state := by
  obtain ⟨⟨n, n₁⟩, hrun⟩ := Exec.exists_eq_ok (do
    let n ← Exec.run Node.step (Node.new Levels.small 2 none 9) ethBuyers
    let n₁ ← Processor.default.handleTradeMsg n .id
      ((ethTrade "ETH_UNI" 2).withRoles .maker .taker)
    pure (n, n₁)) (by decide +kernel)
  simp only [Exec.bind_eq_ok_iff, Exec.pure_eq_ok_iff, Prod.mk.injEq] at hrun
  obtain ⟨n, hn, n₁, hn₁, rfl, rfl⟩ := hrun
  have hreach : Exec.Reachable Node.step (fun _ _ => True) (Node.new Levels.small 2 none 9) n :=
    Exec.Reachable.init.run (fun _ _ _ => trivial) hn
  obtain ⟨n₂, hn₂, heq⟩ := (Processor.default.roles_handleTradeMsg hreach
    (ethTrade "ETH_UNI" 2) (by decide +kernel) (.inl (by decide +kernel)) .id
    .reverse).exists_ok hn₁
  exact ⟨n, n₁, n₂, hn, hn₁, hn₂, heq⟩

/-- The token `YFI` has no leaf: its balance is the node above those of `ETH` and `USDT`. -/
theorem not_roles_ethYfi : ∃ n n₁ n₂,
    Exec.run Node.step (Node.new Levels.small 2 none 9) ethBuyers = .ok n ∧
    Processor.default.handleTradeMsg n .id ((ethTrade "ETH_YFI" 4).withRoles .maker .taker) =
      .ok n₁ ∧
    Processor.default.handleTradeMsg n .id ((ethTrade "ETH_YFI" 4).withRoles .taker .maker) =
      .ok n₂ ∧
    n₁.state.root ≠ n₂.state.root ∧ ¬n₁.state.ObsEq n₂.state := by
  obtain ⟨⟨n, n₁, n₂⟩, hrun⟩ := Exec.exists_eq_ok (do
    let n ← Exec.run Node.step (Node.new Levels.small 2 none 9) ethBuyers
    let n₁ ← Processor.default.handleTradeMsg n .id
      ((ethTrade "ETH_YFI" 4).withRoles .maker .taker)
    let n₂ ← Processor.default.handleTradeMsg n .id
      ((ethTrade "ETH_YFI" 4).withRoles .taker .maker)
    assert (n₁.state.root ≠ n₂.state.root) "roots"
    pure (n, n₁, n₂)) (by decide +kernel)
  simp only [Exec.bind_eq_ok_iff, Exec.assert_eq_ok_iff, Exec.pure_eq_ok_iff,
    Prod.mk.injEq] at hrun
  obtain ⟨n, hn, n₁, hn₁, n₂, hn₂, _, hroot, rfl, rfl, rfl⟩ := hrun
  exact ⟨n, n₁, n₂, hn, hn₁, hn₂, hroot, fun h => hroot h.root⟩

end Example

end Rollup
