import Rollup.Mirror

/-!
# Orders

The orders of an account are found by their position, and by their id through the
position recorded for it. Every position that is recorded holds an order
(`Entry.Occupied`), which is not always the one with the id: a slot that is taken
by a newer order is still recorded for the one it has replaced.

A trade changes one order of each of the two accounts (`Ledger.Traded`): each
order ends at the position recorded for its id, where there was the order itself,
a closed order with a smaller id, or none (`Entry.Trades.replaced`).
-/

namespace Rollup

/-- The order at a position of an account, if there is one. -/
def GlobalState.storedOrder {lv : Levels} (s : GlobalState lv) (accountId pos : ℕ) : Option Order :=
  (s.orderStates.lookup accountId).bind fun orders => orders.lookup pos

/-- The order of a side of a trade has the ids of the side. -/
def Order.HasIds (o : Order) (accountId orderId : ℕ) : Prop :=
  o.accountId = accountId ∧ o.orderId = orderId

instance (o : Order) (accountId orderId : ℕ) : Decidable (o.HasIds accountId orderId) :=
  inferInstanceAs (Decidable (_ ∧ _))

section Orders

variable [FluidexCommon] {lv : Levels} {s s' : GlobalState lv} {L : Ledger lv} {a : ℕ}
  {e e' : Entry lv}

/-! ## Finding orders -/

namespace Holds

variable (h : Holds s L)
include h

omit [FluidexCommon]

/-- The orders that are stored are those of the entries. -/
theorem storedOrder_eq (a pos : ℕ) :
    s.storedOrder a pos = (L a).bind fun e => e.orders.lookup pos := by
  rw [GlobalState.storedOrder, h.orderStates]
  cases L a <;> rfl

theorem storedOrder_entry [FluidexCommon] (a pos : ℕ) :
    s.storedOrder a pos = (L.entry a).orders.lookup pos := by
  rw [h.storedOrder_eq, Ledger.entry]
  cases L a <;> rfl

/-- The orders of an account that exists. -/
theorem storedOrder_of_some (he : L a = some e) (pos : ℕ) :
    s.storedOrder a pos = e.orders.lookup pos := by
  rw [h.storedOrder_eq, he, Option.bind_some]

/-- Only an account that exists has orders. -/
theorem storedOrder_eq_some {pos : ℕ} {o : Order} (ho : s.storedOrder a pos = some o) :
    ∃ e, L a = some e ∧ e.orders.lookup pos = some o := by
  rwa [h.storedOrder_eq, Option.bind_eq_some_iff] at ho

theorem getOrderPosById_eq (he : L a = some e) (orderId : ℕ) :
    s.getOrderPosById a orderId = e.orderPos orderId :=
  h.lookup_orderIdToPos he orderId

/-- The positions that are recorded are those of the entries. -/
theorem getOrderPosById_entry [FluidexCommon] (a orderId : ℕ) :
    s.getOrderPosById a orderId = (L.entry a).orderPos orderId := by
  rw [GlobalState.getOrderPosById, h.orderIdToPos, Ledger.entry]
  cases L a <;> rfl

/-- A position is only recorded for an account that exists. -/
theorem getOrderPosById_eq_some {orderId pos : ℕ} (hp : s.getOrderPosById a orderId = some pos) :
    ∃ e, L a = some e ∧ e.orderPos orderId = some pos := by
  rwa [GlobalState.getOrderPosById, h.orderIdToPos, Option.bind_eq_some_iff] at hp

/-- An order that is found by its id is the one in the slot. -/
theorem getAccountOrderById_eq {orderId pos : ℕ} (he : L a = some e)
    (hpos : e.orderPos orderId = some pos) :
    s.getAccountOrderById a orderId = .ok (e.orderAt pos) := by
  have hhas : s.hasOrder a orderId := (h.hasOrder_iff a orderId).2 ⟨e, pos, he, hpos⟩
  rw [GlobalState.getAccountOrderById, assert, Exec.assert_of hhas, Exec.ok_bind,
    h.getOrderPosById_eq he, hpos, unwrap, Exec.unwrap_some, Exec.ok_bind,
    h.getAccountOrderByPos_eq he]

end Holds

omit [FluidexCommon] in
/-- What is read of a slot that is taken. -/
theorem Entry.orderAt_of_some {pos : ℕ} {o : Order} (ho : e.orders.lookup pos = some o) :
    e.orderAt pos = o := by
  rw [orderAt, ho, Option.getD_some]

/-! ## Recorded positions -/

/-- Every recorded position holds an order. -/
def Entry.Occupied (e : Entry lv) : Prop :=
  ∀ orderId pos, e.orderPos orderId = some pos → ∃ o, e.orders.lookup pos = some o

namespace Entry.Occupied

/-- A new account has no positions. -/
theorem create (lv : Levels) (n : ℕ) : (Entry.create lv n).Occupied := fun _ _ h => by cases h

omit [FluidexCommon] in
/-- Storing an order frees no slot. -/
theorem lookup_insert {pos pos' : ℕ} {order : Order} (h : ∃ o, e.orders.lookup pos = some o) :
    ∃ o, (e.orders.insert pos' order).lookup pos = some o := by
  rw [lookup_insert_ite]
  split
  · exact ⟨order, rfl⟩
  · exact h

/-- The position that a trade records is the one of the order it stores. -/
theorem trades (he : e.Occupied) {order : Order} {pos : ℕ} {sell buy : Fr} {updates : List (ℕ × Fr)}
    (h : e.Trades order pos sell buy updates e') : e'.Occupied := by
  intro orderId pos' hp
  rw [h.orders_eq]
  obtain ⟨placed, ot, hplace, -, rfl⟩ := h
  change placed.orderPos orderId = some pos' at hp
  rcases eq_or_ne orderId order.orderId with rfl | hne
  · obtain rfl := Option.some.inj (hplace.orderPos_self.symm.trans hp)
    exact ⟨_, AList.lookup_insert _⟩
  · exact lookup_insert (he orderId pos' (by rwa [← hplace.orderPos_of_ne hne]))

/-- Setting an order records where it is stored; nothing else records a position. -/
theorem change (he : e.Occupied) {op : Op} (h : e.Change op e') : e'.Occupied := by
  intro orderId pos hp
  cases h with
  | l2Addr _ _ | nonce _ | setBalance _ _ | putBalances _ => exact he orderId pos hp
  | @setOrder pos' order t _ _ =>
    change Function.update e.orderPos order.orderId (some pos') orderId = some pos at hp
    rw [Function.update_apply] at hp
    split at hp
    · obtain rfl := Option.some.inj hp
      exact ⟨order, AList.lookup_insert _⟩
    · exact lookup_insert (he orderId pos hp)
  | cancel _ _ => exact lookup_insert (he orderId pos hp)
  | trade _ htrade => exact he.trades htrade orderId pos hp

end Entry.Occupied

/-- Every reachable state shows a ledger of entries whose recorded positions hold orders. -/
theorem exists_occupied {n : Node lv} {allowed : Node lv → Op → Prop} {nTx persistEveryNBlock : ℕ}
    {blockOffset : Option ℕ}
    (hn : Exec.Reachable Node.step allowed (Node.new lv nTx blockOffset persistEveryNBlock) n) :
    ∃ L, Shows n.state L ∧ ∀ a e, L a = some e → e.Occupied :=
  Node.reachable_ledger (.create lv) (fun _ _ _ _ _ he h => he.change h) hn

/-! ## The order of a side of a trade -/

omit [FluidexCommon] in
/-- An order with the ids of its side is the one at the position recorded for its id. -/
theorem Ledger.Takes.eq_orderAt {supplied : Option Order} {orderId : ℕ} {order : Order}
    (h : L.Takes supplied a orderId order) (he : L a = some e) (hids : order.HasIds a orderId)
    {pos : ℕ} (hpos : e.orderPos order.orderId = some pos) : order = e.orderAt pos := by
  cases supplied with
  | some o =>
    obtain ⟨rfl, -, -, hnew⟩ := h
    exact absurd ⟨e, pos, by rwa [hids.1], hpos⟩ hnew
  | none =>
    obtain ⟨e', pos', he', hpos', hord⟩ := h
    obtain rfl := Option.some.inj (he.symm.trans he')
    rw [hids.2, hpos', Option.some.injEq] at hpos
    rwa [← hpos]

namespace Entry.Trades

variable {order : Order} {pos : ℕ} {sell buy : Fr} {updates : List (ℕ × Fr)}
  (h : e.Trades order pos sell buy updates e')
include h

/-- The order of the trade is recorded where it was placed. -/
theorem orderPos_self : e'.orderPos order.orderId = some pos := by
  obtain ⟨placed, ot, hplace, -, rfl⟩ := h
  exact hplace.orderPos_self

/-- The other orders keep their positions. -/
theorem orderPos_of_ne {orderId : ℕ} (hne : orderId ≠ order.orderId) :
    e'.orderPos orderId = e.orderPos orderId := by
  obtain ⟨placed, ot, hplace, -, rfl⟩ := h
  exact hplace.orderPos_of_ne hne

/-- The slot holds the order with its new fills. -/
theorem lookup_orders_self : e'.orders.lookup pos = some (order.tradeWith sell buy) := by
  rw [h.orders_eq, AList.lookup_insert]

/-- The other slots hold what they held. -/
theorem lookup_orders_of_ne {pos' : ℕ} (hne : pos' ≠ pos) :
    e'.orders.lookup pos' = e.orders.lookup pos' := by
  rw [h.orders_eq, AList.lookup_insert_ne hne]

/-- The position is the one recorded for the id, or the slot of a closed order with a
    smaller id is reused. -/
theorem slot {o : Order} (ho : e.orders.lookup pos = some o) :
    e.orderPos order.orderId = some pos ∨
      (o.isFilled ∨ o.isActive = false) ∧ o.orderId < order.orderId := by
  obtain ⟨placed, ot, hplace, -, -⟩ := h
  cases hplace with
  | known hpos => exact .inl hpos
  | new _ _ hslot =>
    cases hslot with
    | free _ hnone => rw [hnone] at ho; cases ho
    | closed _ _ hold _ hclosed hlt =>
      obtain rfl := Option.some.inj (hold.symm.trans ho)
      exact .inr ⟨hclosed, hlt⟩

/-- An order that was at the position is the order itself, or a closed one with a smaller id. -/
theorem replaced (hown : ∀ p, e.orderPos order.orderId = some p → order = e.orderAt p) {o : Order}
    (ho : e.orders.lookup pos = some o) :
    o = order ∨ (o.isFilled ∨ o.isActive = false) ∧ o.orderId < order.orderId :=
  (h.slot ho).imp_left fun hpos => by rw [hown pos hpos, orderAt_of_some ho]

variable {L' : Ledger lv} (h' : Shows s' L') (he' : L' a = some e')
include h' he'

/-- The order is found after the trade, at the position recorded for its id. -/
theorem found : s'.getOrderPosById a order.orderId = some pos ∧
    s'.storedOrder a pos = some (order.tradeWith sell buy) := by
  rw [h'.getOrderPosById_eq he', h'.storedOrder_of_some he']
  exact ⟨h.orderPos_self, h.lookup_orders_self⟩

/-- Found by its id, the order has its new fills. -/
theorem getAccountOrderById_self :
    s'.getAccountOrderById a order.orderId = .ok (order.tradeWith sell buy) := by
  rw [h'.getAccountOrderById_eq he' h.orderPos_self, orderAt_of_some h.lookup_orders_self]

end Entry.Trades

/-! ## Both sides -/

/-- The ledger after a trade. -/
structure Ledger.Traded (L : Ledger lv) (T : Trade lv) (t : SpotTradeTx) (e1' e2' : Entry lv)
    (s' : GlobalState lv) : Prop where
  trades1 : T.e1.Trades T.order1 T.pos1 t.amount1to2 t.amount2to1 (T.updates1 t) e1'
  trades2 : T.e2.Trades T.order2 T.pos2 t.amount2to1 t.amount1to2 (T.updates2 t) e2'
  shows : Shows s' ((L.set t.order1AccountId e1').set t.order2AccountId e2')

variable {offset : Option ℤ} {schedule : Shuffle Task} {tx : FullSpotTradeTx} {rawTx : RawTx}

/-- An accepted trade changes two entries, and leads to the ledger with both. -/
theorem fullSpotTrade_traded (h : Shows s L)
    (hr : s.fullSpotTrade schedule tx offset = .ok (rawTx, s')) :
    ∃ (T : Trade lv) (e1' e2' : Entry lv), T.Accepted s L tx ∧ L.Traded T tx.trade e1' e2' s' := by
  obtain ⟨T, e1', e2', hT, h1, h2, h', -⟩ := fullSpotTrade_spec h hr
  exact ⟨T, e1', e2', hT, h1, h2, h'⟩

namespace Ledger.Traded

variable {T : Trade lv} {e1' e2' : Entry lv} (ht : L.Traded T tx.trade e1' e2' s')
  (hT : T.Accepted s L tx)

include hT

omit [FluidexCommon] in
/-- The first entry is not overwritten by the second one. -/
theorem entry1 : ((L.set tx.trade.order1AccountId e1').set tx.trade.order2AccountId e2')
    tx.trade.order1AccountId = some e1' := by
  rw [Ledger.set_of_ne _ _ hT.ne, Ledger.set_self]

include ht

/-- The orders elsewhere are those of before. -/
theorem storedOrder_eq (h : Shows s L) {a pos : ℕ}
    (h1 : a = tx.trade.order1AccountId → pos ≠ T.pos1)
    (h2 : a = tx.trade.order2AccountId → pos ≠ T.pos2) :
    s'.storedOrder a pos = s.storedOrder a pos := by
  rcases eq_or_ne a tx.trade.order2AccountId with rfl | ha2
  · rw [ht.shows.storedOrder_of_some (Ledger.set_self _ _ _), h.storedOrder_of_some hT.entry2,
      ht.trades2.lookup_orders_of_ne (h2 rfl)]
  rcases eq_or_ne a tx.trade.order1AccountId with rfl | ha1
  · rw [ht.shows.storedOrder_of_some (entry1 hT), h.storedOrder_of_some hT.entry1,
      ht.trades1.lookup_orders_of_ne (h1 rfl)]
  · rw [ht.shows.storedOrder_eq, h.storedOrder_eq, Ledger.set_of_ne _ _ ha2,
      Ledger.set_of_ne _ _ ha1]

end Ledger.Traded

/-! ## Sides -/

/-- A side of a trade. -/
structure TradeSide where
  accountId : ℕ
  orderId : ℕ
  tokenSell : ℕ
  tokenBuy : ℕ
  sell : Fr
  buy : Fr
  supplied : Option Order
  name : String

/-- The sides of a trade, the maker's first. -/
def FullSpotTradeTx.sides (tx : FullSpotTradeTx) : List TradeSide :=
  let t := tx.trade
  [⟨t.order1AccountId, t.order1Id, t.tokenId1to2, t.tokenId2to1, t.amount1to2, t.amount2to1,
      tx.makerOrder, "order1"⟩,
    ⟨t.order2AccountId, t.order2Id, t.tokenId2to1, t.tokenId1to2, t.amount2to1, t.amount1to2,
      tx.takerOrder, "order2"⟩]

/-- The order of a side. -/
def GlobalState.orderOf (s : GlobalState lv) (side : TradeSide) : Except Panic Order :=
  s.takeOrder side.supplied side.accountId side.orderId side.name

/-- A side of a trade trades its order, at a position. -/
structure Ledger.TradesSide (L : Ledger lv) (s : GlobalState lv) (side : TradeSide) (order : Order)
    (pos : ℕ) (e e' : Entry lv) : Prop where
  orderOf : s.orderOf side = .ok order
  takes : L.Takes side.supplied side.accountId side.orderId order
  entry : L side.accountId = some e
  keyed : e.state.ay ≠ 0
  trades : ∃ updates, e.Trades order pos side.sell side.buy updates e'

/-- What a trade does, said once for both of its sides. -/
theorem fullSpotTrade_sides (h : Shows s L)
    (hr : s.fullSpotTrade schedule tx offset = .ok (rawTx, s')) :
    tx.trade.order1AccountId ≠ tx.trade.order2AccountId ∧ ∃ L' : Ledger lv, Shows s' L' ∧
      (∀ a, (∀ side ∈ tx.sides, a ≠ side.accountId) → L' a = L a) ∧
      ∀ side ∈ tx.sides, ∃ order pos e e', L.TradesSide s side order pos e e' ∧
        L' side.accountId = some e' := by
  obtain ⟨T, e1', e2', hT, ht⟩ := fullSpotTrade_traded h hr
  refine ⟨hT.ne, _, ht.shows, fun a ha => ?_, fun side hside => ?_⟩
  · simp only [FullSpotTradeTx.sides, List.forall_mem_cons] at ha
    rw [Ledger.set_of_ne _ _ ha.2.1, Ledger.set_of_ne _ _ ha.1]
  · simp only [FullSpotTradeTx.sides, List.mem_cons, List.not_mem_nil, or_false] at hside
    rcases hside with rfl | rfl
    · exact ⟨T.order1, T.pos1, T.e1, e1', ⟨hT.taken1, hT.takes1, hT.entry1, hT.keyed1, _, ht.trades1⟩,
        Ledger.Traded.entry1 hT⟩
    · exact ⟨T.order2, T.pos2, T.e2, e2', ⟨hT.taken2, hT.takes2, hT.entry2, hT.keyed2, _, ht.trades2⟩,
        Ledger.set_self _ _ _⟩

/-- A slot is kept by a trade, or it is that of the order of a side. -/
theorem fullSpotTrade_slots (h : Shows s L)
    (hr : s.fullSpotTrade schedule tx offset = .ok (rawTx, s')) : ∃ L' : Ledger lv, Shows s' L' ∧
      ∀ a pos, s'.storedOrder a pos = s.storedOrder a pos ∨ ∃ side ∈ tx.sides, ∃ order e e',
        side.accountId = a ∧ L.TradesSide s side order pos e e' ∧ L' a = some e' := by
  obtain ⟨-, L', h', hother, hsides⟩ := fullSpotTrade_sides h hr
  refine ⟨L', h', fun a pos => ?_⟩
  by_cases hside : ∃ side ∈ tx.sides, side.accountId = a
  · obtain ⟨side, hmem, rfl⟩ := hside
    obtain ⟨order, pos', e, e', hT, he'⟩ := hsides side hmem
    obtain ⟨updates, htrades⟩ := hT.trades
    by_cases hpos : pos = pos'
    · exact .inr ⟨side, hmem, order, e, e', rfl, hpos ▸ hT, he'⟩
    · exact .inl (by rw [h'.storedOrder_of_some he', h.storedOrder_of_some hT.entry,
        htrades.lookup_orders_of_ne hpos])
  · refine .inl ?_
    rw [h'.storedOrder_eq, h.storedOrder_eq,
      hother a fun side hmem ha => hside ⟨side, hmem, ha.symm⟩]

/-! ## Operations without orders -/

/-- The operations that may change orders. -/
def Op.OnOrders : Op → Prop
  | .setAccountOrder _ _ _ | .fullSpotTrade _ _ _ | .cancelOrder _ _ => True
  | _ => False

/-- The ledger `L'` has the orders of `L`. -/
def Ledger.SameOrders (L L' : Ledger lv) : Prop :=
  ∀ a, (L'.entry a).orders = (L.entry a).orders ∧ (L'.entry a).orderPos = (L.entry a).orderPos

/-- The entry `e'` has the orders of `e`, and the position from which slots are looked for. -/
structure Entry.SameSlots (e e' : Entry lv) : Prop where
  orders : e'.orders = e.orders
  orderPos : e'.orderPos = e.orderPos
  nextOrderPos : e'.nextOrderPos = e.nextOrderPos

omit [FluidexCommon] in
/-- A key is not part of the slots. -/
theorem Entry.SameSlots.setNewL2Addr (h : e.SameSlots e') (l2key : Option L2Key) :
    e.SameSlots (e'.setNewL2Addr l2key) := by
  cases l2key with
  | none => exact h
  | some l2key => exact ⟨h.orders, h.orderPos, h.nextOrderPos⟩

/-- The ledger `L'` has the slots of `L`. -/
def Ledger.SameSlots (L L' : Ledger lv) : Prop := ∀ a, (L.entry a).SameSlots (L'.entry a)

namespace Ledger.SameSlots

theorem refl (L : Ledger lv) : L.SameSlots L := fun _ => ⟨rfl, rfl, rfl⟩

theorem trans {L' L'' : Ledger lv} (h : L.SameSlots L') (h' : L'.SameSlots L'') :
    L.SameSlots L'' :=
  fun a => ⟨(h' a).orders.trans (h a).orders, (h' a).orderPos.trans (h a).orderPos,
    (h' a).nextOrderPos.trans (h a).nextOrderPos⟩

/-- Nothing changes of the slots if the new entry has the same ones. -/
theorem set (h : (L.entry a).SameSlots e) : L.SameSlots (L.set a e) := by
  intro b
  rw [Ledger.entry_set]
  split
  · next hb => exact hb ▸ h
  · exact ⟨rfl, rfl, rfl⟩

theorem set_of_some (he : L a = some e) (h : e.SameSlots e') : L.SameSlots (L.set a e') :=
  .set (by rwa [Ledger.entry_of_some he])

theorem sameOrders {L' : Ledger lv} (h : L.SameSlots L') : L.SameOrders L' :=
  fun a => ⟨(h a).orders, (h a).orderPos⟩

end Ledger.SameSlots

/-- A transfer changes neither orders nor positions. -/
theorem transfer_sameSlots (h : Shows s L) {schedule : Shuffle Task} {tx : TransferTx}
    {offset : Option ℤ} {rawTx : RawTx} (hr : s.transfer schedule tx offset = .ok (rawTx, s')) :
    ∃ L', Shows s' L' ∧ L.SameSlots L' := by
  obtain ⟨-, htrans, -⟩ := transfer_spec h hr
  rcases eq_or_ne tx.fromId tx.toId with hft | hft
  · obtain ⟨updates, -, h'⟩ := htrans.eq hft
    refine ⟨_, h', .set (.setNewL2Addr ?_ _)⟩
    exact ⟨rfl, rfl, rfl⟩
  · have h' := htrans.ne hft
    have hfrom : L.SameSlots (L.set tx.fromId ((L.entry tx.fromId).send tx)) := .set ⟨rfl, rfl, rfl⟩
    refine ⟨_, h', hfrom.trans (.set (.setNewL2Addr ?_ _))⟩
    rw [Ledger.entry_set, if_neg (Ne.symm hft)]
    exact ⟨rfl, rfl, rfl⟩

/-- The other operations change no order, and no slot but for those of a new account. -/
theorem apply_sameSlots (h : Shows s L) {op : Op} (hop : ¬op.OnOrders)
    (hnew : ∀ n, op ≠ .createNewAccount n) {raw : Option RawTx}
    (hr : s.apply op = .ok (raw, s')) : ∃ L', Shows s' L' ∧ L.SameSlots L' := by
  cases GlobalState.applied hr with
  | createNewAccount hr => exact absurd rfl (hnew _)
  | setAccountL2Addr hr =>
    obtain ⟨e, he, h'⟩ := setAccountL2Addr_spec h hr
    exact ⟨_, h', .set_of_some he ⟨rfl, rfl, rfl⟩⟩
  | setAccountNonce hr =>
    obtain ⟨e, he, h'⟩ := setAccountNonce_spec h hr
    exact ⟨_, h', .set_of_some he ⟨rfl, rfl, rfl⟩⟩
  | setTokenBalance hr =>
    obtain ⟨t, -, h'⟩ := setTokenBalance_spec h hr
    exact ⟨_, h', .set ⟨rfl, rfl, rfl⟩⟩
  | keyUpdate hr =>
    rcases keyUpdate_spec h hr with ⟨-, rfl⟩ | ⟨-, t, -, h', -⟩
    · exact ⟨L, h, .refl L⟩
    · exact ⟨_, h', .set ⟨rfl, rfl, rfl⟩⟩
  | deposit hr =>
    rcases deposit_spec h hr with ⟨-, rfl⟩ | ⟨-, t, -, h', -⟩
    · exact ⟨L, h, .refl L⟩
    · refine ⟨_, h', .set (.setNewL2Addr ?_ _)⟩
      exact ⟨rfl, rfl, rfl⟩
  | transfer hr => exact transfer_sameSlots h hr
  | withdraw hr =>
    obtain ⟨t, -, h', -⟩ := withdraw_spec h hr
    exact ⟨_, h', .set ⟨rfl, rfl, rfl⟩⟩
  | setAccountOrder _ | fullSpotTrade _ | cancelOrder _ => exact absurd trivial hop
  | nop | flushWithNop | popAllBlocks => exact ⟨L, h, .refl L⟩

/-- An operation that is not on orders changes none. -/
theorem apply_sameOrders (h : Shows s L) {op : Op} (hop : ¬op.OnOrders) {raw : Option RawTx}
    (hr : s.apply op = .ok (raw, s')) : ∃ L', Shows s' L' ∧ L.SameOrders L' := by
  by_cases hnew : ∀ n, op ≠ .createNewAccount n
  · obtain ⟨L', h', hsame⟩ := apply_sameSlots h hop hnew hr
    exact ⟨L', h', hsame.sameOrders⟩
  · simp only [not_forall, not_not] at hnew
    obtain ⟨n, rfl⟩ := hnew
    cases GlobalState.applied hr with
    | createNewAccount hr =>
      rcases createNewAccount_spec h hr with rfl | ⟨a, hnone, -, h'⟩
      · exact ⟨L, h, (Ledger.SameSlots.refl L).sameOrders⟩
      · refine ⟨_, h', fun b => ?_⟩
        rw [Ledger.entry_set]
        split
        · next hb => rw [hb, Ledger.entry, hnone]; exact ⟨rfl, rfl⟩
        · exact ⟨rfl, rfl⟩

/-! ## Slots -/

/-- What an operation may do to the slot of an order. -/
inductive GlobalState.SlotStep (s : GlobalState lv) (op : Op) (s' : GlobalState lv) (a pos : ℕ) :
    Prop
  | kept : s'.storedOrder a pos = s.storedOrder a pos → SlotStep s op s' a pos
  | cancelled {orderId : ℕ} {o : Order} : op = .cancelOrder a orderId →
      s.getOrderPosById a orderId = some pos → s.storedOrder a pos = some o →
      s'.storedOrder a pos = some { o with isActive := false } → SlotStep s op s' a pos
  | set {order : Order} : op = .setAccountOrder a pos order → s'.storedOrder a pos = some order →
      SlotStep s op s' a pos
  | traded {schedule : Shuffle Task} {tx : FullSpotTradeTx} {offset : Option ℤ} {side : TradeSide}
      {order : Order} : op = .fullSpotTrade schedule tx offset → side ∈ tx.sides →
      a = side.accountId → s.orderOf side = .ok order →
      s'.storedOrder a pos = some (order.tradeWith side.sell side.buy) →
      -- What was there is the order itself, or a closed one.
      (order.HasIds a side.orderId → ∀ o, s.storedOrder a pos = some o →
        o = order ∨ (o.isFilled ∨ o.isActive = false) ∧ o.orderId < order.orderId) →
      SlotStep s op s' a pos

/-- Replacing the entry of an account changes its orders. -/
theorem Holds.storedOrder_set {b : ℕ} (h : Holds s L) (h' : Holds s' (L.set b e')) (a pos : ℕ) :
    s'.storedOrder a pos = if a = b then e'.orders.lookup pos else s.storedOrder a pos := by
  rw [h'.storedOrder_entry, Ledger.entry_set]
  split
  · rfl
  · rw [h.storedOrder_entry]

/-- One operation on one slot, whichever they are. -/
theorem apply_slot (h : Shows s L) {op : Op} {raw : Option RawTx} (hr : s.apply op = .ok (raw, s'))
    (a pos : ℕ) : s.SlotStep op s' a pos := by
  by_cases hop : op.OnOrders
  swap
  · obtain ⟨L', h', hsame⟩ := apply_sameOrders h hop hr
    -- An operation that is not on orders keeps all the slots.
    exact .kept (by rw [h'.storedOrder_entry, h.storedOrder_entry, (hsame a).1])
  cases GlobalState.applied hr with
  | @setAccountOrder b pos' order _ hr =>
    obtain ⟨e, t, he, -, -, h'⟩ := setAccountOrder_spec h hr
    have hslot := h.storedOrder_set h'.toHolds a pos
    change _ = if a = b then (e.orders.insert pos' order).lookup pos else _ at hslot
    rw [lookup_insert_ite] at hslot
    by_cases hab : a = b
    · subst hab
      rw [if_pos rfl] at hslot
      by_cases hpos : pos = pos'
      · subst hpos
        -- The slot that is set, and no other one.
        exact .set rfl (by rw [hslot, if_pos rfl])
      · exact .kept (by rw [hslot, if_neg hpos, h.storedOrder_of_some he])
    · exact .kept (by rw [hslot, if_neg hab])
  | @cancelOrder b orderId _ hr =>
    obtain ⟨e, pos', order, he, hp, horder, h'⟩ := cancelOrder_spec h hr
    have hslot := h.storedOrder_set h'.toHolds a pos
    change _ = if a = b then (e.orders.insert pos' { order with isActive := false }).lookup pos
      else _ at hslot
    rw [lookup_insert_ite] at hslot
    by_cases hab : a = b
    · subst hab
      rw [if_pos rfl] at hslot
      by_cases hpos : pos = pos'
      · subst hpos
        -- The slot that is recorded for the id.
        refine .cancelled rfl ?_ ((h.storedOrder_of_some he pos).trans horder)
          (by rw [hslot, if_pos rfl])
        rw [h.getOrderPosById_eq he, hp]
      · exact .kept (by rw [hslot, if_neg hpos, h.storedOrder_of_some he])
    · exact .kept (by rw [hslot, if_neg hab])
  | @fullSpotTrade schedule tx offset rawTx _ hr =>
    obtain ⟨L', h', hslots⟩ := fullSpotTrade_slots h hr
    rcases hslots a pos with hkept | ⟨side, hmem, order, e, e', rfl, hT, he'⟩
    · exact .kept hkept
    · obtain ⟨updates, htrades⟩ := hT.trades
      -- What was in the slot had the order's id, or else is replaced.
      refine .traded rfl hmem rfl hT.orderOf ?_ fun hids o ho => ?_
      · rw [h'.storedOrder_of_some he', htrades.lookup_orders_self]
      · rw [h.storedOrder_of_some hT.entry] at ho
        exact htrades.replaced (fun p => hT.takes.eq_orderAt hT.entry hids) ho
  | createNewAccount _ | setAccountL2Addr _ | setAccountNonce _ | setTokenBalance _ | keyUpdate _
  | deposit _ | transfer _ | withdraw _ | nop | flushWithNop | popAllBlocks => exact hop.elim

end Orders

end Rollup
