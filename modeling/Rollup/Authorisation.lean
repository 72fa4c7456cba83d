import Rollup.Settlement

/-!
# The orders of a trade

What a trade is checked against is only that its orders are new, without fills,
or known (`GlobalState.UsesOrder`). Nothing is checked of what an order says: its
account and id, its tokens, whether it is active, and what is left of it. It is
for those who send the trades to send authorised ones (`Op.Authorised`); then no
order sells more than its total, and a cancelled order is kept as it is, until a
newer one takes its slot.
-/

namespace Rollup

/-! ## Authorised trades -/

/-- The order authorises the side of a trade. -/
def Order.Authorises (o : Order) (side : TradeSide) : Prop :=
  o.HasIds side.accountId side.orderId ∧ o.tokenSell = side.tokenSell ∧
    o.tokenBuy = side.tokenBuy ∧ o.isActive = true ∧
    o.filledSell.val + side.sell.val ≤ o.totalSell.val

instance (o : Order) (side : TradeSide) : Decidable (o.Authorises side) :=
  inferInstanceAs (Decidable (_ ∧ _))

section Authorisation

variable [FluidexCommon] {lv : Levels} {s s' : GlobalState lv} {L : Ledger lv}

/-- The trades are authorised by both orders, and the orders that are set directly
    have not sold more than their total. -/
def Op.Authorised (s : GlobalState lv) : Op → Prop
  | .fullSpotTrade _ tx _ => ∀ side ∈ tx.sides, ∀ o, s.orderOf side = .ok o → o.Authorises side
  | .setAccountOrder _ _ order => order.filledSell.val ≤ order.totalSell.val
  | _ => True

instance (s : GlobalState lv) (op : Op) : Decidable (op.Authorised s) :=
  match op with
  | .fullSpotTrade _ tx _ => inferInstanceAs (Decidable (∀ side ∈ tx.sides, _))
  | .setAccountOrder _ _ order =>
    inferInstanceAs (Decidable (order.filledSell.val ≤ order.totalSell.val))
  | .createNewAccount _ | .setAccountL2Addr _ _ _ | .setAccountNonce _ _ | .setTokenBalance _ _ _
  | .keyUpdate _ _ | .deposit _ _ | .transfer _ _ _ | .withdraw _ _ | .cancelOrder _ _ | .nop
  | .flushWithNop | .popAllBlocks => .isTrue trivial

/-! ## What the manager checks -/

/-- The order of a side is supplied, unknown and without fills, or it is the one at the
    position recorded for the ids of the side; after the trade, it is at the position
    recorded for its id, its fills being increased by the amounts. -/
def GlobalState.UsesOrder (s : GlobalState lv) (side : TradeSide) (s' : GlobalState lv) : Prop :=
  ∃ order pos, s.orderOf side = .ok order ∧
    (match side.supplied with
      | some o => order = o ∧ ¬s.hasOrder o.accountId o.orderId ∧ o.filledSell = 0 ∧ o.filledBuy = 0
      | none => ∃ p, s.getOrderPosById side.accountId side.orderId = some p ∧
          s.storedOrder side.accountId p = some order) ∧
    s'.getOrderPosById side.accountId order.orderId = some pos ∧
    s'.storedOrder side.accountId pos = some (order.tradeWith side.sell side.buy)

/-- The slots are kept, apart from those of the orders of the two sides. Such an order takes
    the place of what was at the position recorded for its id, or of a closed order with a
    smaller id. -/
def GlobalState.KeepsOtherOrders (s : GlobalState lv) (tx : FullSpotTradeTx)
    (s' : GlobalState lv) : Prop :=
  ∀ a pos, s'.storedOrder a pos = s.storedOrder a pos ∨
    ∃ side ∈ tx.sides, ∃ order, side.accountId = a ∧ s.orderOf side = .ok order ∧
      s'.getOrderPosById a order.orderId = some pos ∧
      s'.storedOrder a pos = some (order.tradeWith side.sell side.buy) ∧
      ∀ o, s.storedOrder a pos = some o → s.getOrderPosById a order.orderId = some pos ∨
        (o.isFilled ∨ o.isActive = false) ∧ o.orderId < order.orderId

/-- A trade is between two different accounts with keys, each of them using an order. -/
structure GlobalState.UsesOrders (s : GlobalState lv) (tx : FullSpotTradeTx)
    (s' : GlobalState lv) : Prop where
  ne : tx.trade.order1AccountId ≠ tx.trade.order2AccountId
  keyed : ∀ side ∈ tx.sides, s.hasAccount side.accountId
  uses : ∀ side ∈ tx.sides, s.UsesOrder side s'
  keeps : s.KeepsOtherOrders tx s'

theorem Ledger.TradesSide.usesOrder (h : Shows s L) {L' : Ledger lv} (h' : Shows s' L')
    (hL : ∀ a e, L a = some e → e.Occupied) {side : TradeSide} {order : Order} {pos : ℕ}
    {e e' : Entry lv} (hT : L.TradesSide s side order pos e e') (he' : L' side.accountId = some e') :
    s.UsesOrder side s' := by
  obtain ⟨updates, htrades⟩ := hT.trades
  refine ⟨order, pos, hT.orderOf, ?_, htrades.found h' he'⟩
  have htakes := hT.takes
  cases hs : side.supplied with
  | some o =>
    rw [hs] at htakes
    obtain ⟨rfl, hbuy, hsell, hnew⟩ := htakes
    exact ⟨rfl, fun hhas => hnew ((h.hasOrder_iff _ _).1 hhas), hsell, hbuy⟩
  | none =>
    rw [hs] at htakes
    obtain ⟨e₀, p, he₀, hp, rfl⟩ := htakes
    -- The position being recorded, there is an order.
    obtain ⟨o, ho⟩ := hL _ _ he₀ _ _ hp
    refine ⟨p, by rw [h.getOrderPosById_eq he₀, hp], ?_⟩
    rw [h.storedOrder_of_some he₀, ho, Entry.orderAt_of_some ho]

/-- A trade keeps the slots of the other orders. -/
theorem fullSpotTrade_keepsOtherOrders (h : Shows s L) {schedule : Shuffle Task}
    {tx : FullSpotTradeTx} {offset : Option ℤ} {rawTx : RawTx}
    (hr : s.fullSpotTrade schedule tx offset = .ok (rawTx, s')) : s.KeepsOtherOrders tx s' := by
  obtain ⟨L', h', hslots⟩ := fullSpotTrade_slots h hr
  intro a pos
  rcases hslots a pos with hkept | ⟨side, hmem, order, e, e', rfl, hT, he'⟩
  · exact .inl hkept
  · obtain ⟨updates, htrades⟩ := hT.trades
    obtain ⟨hfound, hstored⟩ := htrades.found h' he'
    refine .inr ⟨side, hmem, order, rfl, hT.orderOf, hfound, hstored, fun o ho => ?_⟩
    rw [h.storedOrder_of_some hT.entry] at ho
    rw [h.getOrderPosById_eq hT.entry]
    exact htrades.slot ho

theorem fullSpotTrade_usesOrders (h : Shows s L) (hL : ∀ a e, L a = some e → e.Occupied)
    {schedule : Shuffle Task} {tx : FullSpotTradeTx} {offset : Option ℤ} {rawTx : RawTx}
    (hr : s.fullSpotTrade schedule tx offset = .ok (rawTx, s')) : s.UsesOrders tx s' := by
  obtain ⟨hne, L', h', -, hsides⟩ := fullSpotTrade_sides h hr
  refine ⟨hne, fun side hside => ?_, fun side hside => ?_, fullSpotTrade_keepsOtherOrders h hr⟩
  · obtain ⟨order, pos, e, e', hT, -⟩ := hsides side hside
    rw [h.hasAccount_iff, Ledger.entry_of_some hT.entry]
    exact hT.keyed
  · obtain ⟨order, pos, e, e', hT, he'⟩ := hsides side hside
    exact hT.usesOrder h h' hL he'

/-! ## Authorised runs -/

/-- No order has sold more than its total. -/
def GlobalState.NotOversold (s : GlobalState lv) : Prop :=
  ∀ a pos o, s.storedOrder a pos = some o → o.filledSell.val ≤ o.totalSell.val

/-- A cancelled order is kept, unless a newer one takes its slot or it is set directly. -/
def GlobalState.KeepsCancelled (s : GlobalState lv) (op : Op) (s' : GlobalState lv) : Prop :=
  ∀ a pos o, s.storedOrder a pos = some o → o.isActive = false →
    (∀ order, op ≠ .setAccountOrder a pos order) → s'.storedOrder a pos = some o ∨
      ∃ o', s'.storedOrder a pos = some o' ∧ o'.isActive = true ∧ o.orderId < o'.orderId

omit [FluidexCommon] in
/-- A trade of an order that authorises it does not sell more than the total. -/
theorem Order.Authorises.filledSell_le {o : Order} {side : TradeSide} (ho : o.Authorises side) :
    (o.tradeWith side.sell side.buy).filledSell.val ≤ o.totalSell.val := by
  obtain ⟨-, -, -, -, hleft⟩ := ho
  exact (ZMod.val_add_le _ _).trans hleft

theorem notOversold_step (h : Shows s L) {op : Op} (hop : op.Authorised s) {raw : Option RawTx}
    (hr : s.apply op = .ok (raw, s')) (hs : s.NotOversold) : s'.NotOversold := by
  intro a pos o' ho'
  cases apply_slot h hr a pos with
  | kept hslot => exact hs a pos o' (by rwa [← hslot])
  | cancelled _ _ ho hslot =>
    obtain rfl := Option.some.inj (hslot.symm.trans ho')
    have hle := hs a pos _ ho
    exact hle
  | set hset hslot =>
    obtain rfl := Option.some.inj (hslot.symm.trans ho')
    subst hset
    exact hop
  | traded htrade hside _ horder hslot _ =>
    obtain rfl := Option.some.inj (hslot.symm.trans ho')
    subst htrade
    exact (hop _ hside _ horder).filledSell_le

theorem keepsCancelled_step (h : Shows s L) {op : Op} (hop : op.Authorised s) {raw : Option RawTx}
    (hr : s.apply op = .ok (raw, s')) : s.KeepsCancelled op s' := by
  intro a pos o ho hinactive hnot
  cases apply_slot h hr a pos with
  | kept hslot => exact .inl (hslot.trans ho)
  | cancelled _ _ ho' hslot =>
    -- It has been cancelled again.
    obtain rfl := Option.some.inj (ho'.symm.trans ho)
    rw [hslot, ← hinactive]
    exact .inl rfl
  | set hset _ => exact absurd hset (hnot _)
  | traded htrade hside hacc horder hslot hreplaced =>
    subst htrade hacc
    obtain ⟨hids, -, -, hactive, -⟩ := hop _ hside _ horder
    rcases hreplaced hids o ho with rfl | ⟨-, hlt⟩
    · rw [hinactive] at hactive
      cases hactive
    · exact .inr ⟨_, hslot, hactive, hlt⟩

/-- In every reachable state, an accepted trade uses two orders. In every state reached
    by authorised operations, no order has sold more than its total, and the cancelled
    orders are kept. -/
theorem trades_use_orders (lv : Levels) (nTx persistEveryNBlock : ℕ) (blockOffset : Option ℕ) :
    (∀ n, Exec.Reachable Node.step (fun _ _ => True)
        (Node.new lv nTx blockOffset persistEveryNBlock) n →
      ∀ schedule tx offset rawTx s',
        n.state.fullSpotTrade schedule tx offset = .ok (rawTx, s') → n.state.UsesOrders tx s') ∧
    ∀ n, Exec.Reachable Node.step (fun n op => op.Authorised n.state)
        (Node.new lv nTx blockOffset persistEveryNBlock) n →
      n.state.NotOversold ∧ ∀ op n', op.Authorised n.state → n.step op = .ok n' →
        n.state.KeepsCancelled op n'.state := by
  refine ⟨fun n hn schedule tx offset rawTx s' hr => ?_, fun n hn => ⟨?_, fun op n' hop hst => ?_⟩⟩
  · obtain ⟨L, h, hL⟩ := exists_occupied hn
    exact fullSpotTrade_usesOrders h hL hr
  · refine hn.invariant (fun _ _ _ ho => by cases ho) fun m op m' hm hs hop hst => ?_
    obtain ⟨L, h, -⟩ := exists_occupied hm
    obtain ⟨raw, hr⟩ := Node.step_state hst
    exact notOversold_step h hop hr hs
  · obtain ⟨L, h, -⟩ := exists_occupied hn
    obtain ⟨raw, hr⟩ := Node.step_state hst
    exact keepsCancelled_step h hop hr

end Authorisation

/-- The first trade, after which the maker's order is cancelled. -/
def cancelledMaker : List Op :=
  traders ++ [.fullSpotTrade .id (fiveForSix 1) none, .cancelOrder 0 3]

/-- A second trade of the same orders. -/
def eightForOne : FullSpotTradeTx := ⟨⟨0, 1, 1, 0, 8, 1, 3, 4⟩, none, none⟩

attribute [local instance] FluidexCommon.sample in
/-- An order that has sold five of ten and has been cancelled sells eight more. -/
theorem not_authorised_eightForOne :
    ∃ n rawTx s' o o', Exec.run Node.step (Node.new Levels.small 2 none 9) cancelledMaker = .ok n ∧
      n.state.fullSpotTrade .id eightForOne none = .ok (rawTx, s') ∧
      n.state.storedOrder 0 0 = some o ∧ s'.storedOrder 0 0 = some o' ∧ o.HasIds 0 3 ∧
      o.isActive = false ∧ o.filledSell = 5 ∧ o'.filledSell = 13 ∧ o'.totalSell = 10 := by
  obtain ⟨⟨n, r, o, o'⟩, hn⟩ := Exec.exists_eq_ok (do
    let n ← Exec.run Node.step (Node.new Levels.small 2 none 9) cancelledMaker
    let r ← n.state.fullSpotTrade .id eightForOne none
    let o ← unwrap (n.state.storedOrder 0 0)
    let o' ← unwrap (r.2.storedOrder 0 0)
    assert (o.HasIds 0 3 ∧ o.isActive = false ∧ o.filledSell = 5 ∧ o'.filledSell = 13 ∧
      o'.totalSell = 10) "orders"
    pure (n, r, o, o')) (by decide +kernel)
  simp only [Exec.bind_eq_ok_iff, Exec.assert_eq_ok_iff, Exec.unwrap_eq_ok_iff,
    Exec.pure_eq_ok_iff, Prod.mk.injEq] at hn
  obtain ⟨n, hn, ⟨rawTx, s'⟩, hr, o, ho, o', ho', _, hvalues, rfl, -, -, -⟩ := hn
  exact ⟨n, rawTx, s', o, o', hn, hr, ho, ho', hvalues⟩

/-- Two orders of ten and six units against twelve and five. -/
def tenForTwelve : Order :=
  { Order.default with orderId := 3, tokenSell := 1, totalSell := 10, totalBuy := 12 }

/-- The order on the other side of the trade. -/
def sixForFive : Order :=
  { Order.default with accountId := 1, orderId := 4, tokenBuy := 1, totalSell := 6, totalBuy := 5 }

/-- A trade of two new orders, authorised by both, and the cancellation of the first one. -/
def authorisedOps : List Op :=
  traders ++ [.fullSpotTrade .id ⟨⟨0, 1, 1, 0, 5, 6, 3, 4⟩, some tenForTwelve, some sixForFive⟩ none,
    .cancelOrder 0 3]

attribute [local instance] FluidexCommon.sample in
/-- After the authorised operations, a trade that the manager accepts. -/
theorem trades_use_orders_authorisedOps :
    ∃ n rawTx s', Exec.run Node.step (Node.new Levels.small 2 none 9) authorisedOps = .ok n ∧
      n.state.NotOversold ∧ n.state.fullSpotTrade .id eightForOne none = .ok (rawTx, s') ∧
      n.state.UsesOrders eightForOne s' := by
  obtain ⟨⟨n, rawTx, s'⟩, hn⟩ := Exec.exists_eq_ok (do
    let n ← Exec.run (Exec.guarded Node.step (.explicit "not allowed")
      fun n op => op.Authorised n.state) (Node.new Levels.small 2 none 9) authorisedOps
    let r ← n.state.fullSpotTrade .id eightForOne none
    pure (n, r.1, r.2)) (by decide +kernel)
  simp only [Exec.bind_eq_ok_iff, Exec.pure_eq_ok_iff, Prod.mk.injEq] at hn
  obtain ⟨n, hn, ⟨rawTx, s'⟩, hr, rfl, rfl, rfl⟩ := hn
  obtain ⟨hreach, hrun⟩ := Exec.Reachable.init.of_guarded hn
  obtain ⟨huse, hall⟩ := trades_use_orders Levels.small 2 9 none
  have hreach' : Exec.Reachable Node.step (fun _ _ => True) (Node.new Levels.small 2 none 9) n :=
    hreach.mono fun _ _ _ => trivial
  exact ⟨n, rawTx, s', hrun, (hall n hreach).1, hr, huse n hreach' _ _ _ _ _ hr⟩

end Rollup
