import Rollup.Emitted
import Rollup.Ledger.Accepts
import Rollup.Slots

/-!
# When trades are accepted

A trade is accepted exactly if its accounts have keys, their balances are larger than what is
sold, the totals of the orders are compressed, and there are slots for the orders
(`exists_fullSpotTrade_iff`). The comparison of the balances is strict, where that of a transfer
is not: a balance cannot be sold as a whole (`fullSpotTrade_completes_iff`).

The slot of an order whose id is not recorded (`GlobalState.Fits`) is the one after the orders of
the account, which must be in the first slots. If there is none, it is that of the first order
that may be replaced, from the cursor on and around; the search stops at an order that sells
nothing.
-/

namespace Rollup

section Trading

variable [FluidexCommon] {lv : Levels} {s s' : GlobalState lv} {L : Ledger lv} {a : ℕ}
  {e e' : Entry lv}

/-! ## The orders of an account -/

/-- What holds of the orders of every account: they are in range, their ids are recorded, and
    what is recorded are positions of orders. -/
structure Entry.Tidy (e : Entry lv) : Prop where
  lt : ∀ pos ∈ e.orders, pos < 2 ^ lv.orderLevels
  recorded : ∀ pos o, e.orders.lookup pos = some o → (e.orderPos o.orderId).isSome
  occupied : e.Occupied

namespace Entry.Tidy

theorem create (lv : Levels) (n : ℕ) : (Entry.create lv n).Tidy where
  lt _ h := by cases h
  recorded _ _ h := by cases h
  occupied := .create lv n

omit [FluidexCommon] in
/-- Storing an order whose id is recorded. -/
theorem insert (h : e.Tidy) {order : Order} {pos : ℕ} (ho : e'.orders = e.orders.insert pos order)
    (hpos : pos < 2 ^ lv.orderLevels) (hid : (e'.orderPos order.orderId).isSome)
    (hkeep : ∀ orderId, (e.orderPos orderId).isSome → (e'.orderPos orderId).isSome)
    (hocc : e'.Occupied) : e'.Tidy where
  lt p hp := by
    rw [ho, AList.mem_insert] at hp
    rcases hp with rfl | hp
    · exact hpos
    · exact h.lt p hp
  recorded p o hl := by
    rw [ho, lookup_insert_ite] at hl
    split at hl
    · exact Option.some.inj hl ▸ hid
    · exact hkeep _ (h.recorded p o hl)
  occupied := hocc

omit [FluidexCommon] in
/-- The recorded positions are in range. -/
theorem placed (h : e.Tidy) : e.Placed := by
  intro orderId pos hpos
  obtain ⟨o, ho⟩ := h.occupied orderId pos hpos
  exact h.lt pos (AList.lookup_isSome.1 (by rw [ho]; rfl))

theorem change (h : e.Tidy) {op : Op} (hch : e.Change op e') : e'.Tidy := by
  have hocc := h.occupied.change hch
  cases hch with
  | l2Addr _ _ | nonce _ | setBalance _ _ | putBalances _ => exact ⟨h.lt, h.recorded, h.occupied⟩
  | @setOrder pos order t hlt _ =>
    have hself : Function.update e.orderPos order.orderId (some pos) order.orderId = some pos :=
      Function.update_self _ _ _
    refine h.insert rfl hlt (Option.isSome_iff_exists.2 ⟨pos, hself⟩) (fun orderId hsome => ?_) hocc
    change (Function.update e.orderPos order.orderId (some pos) orderId).isSome
    rw [Function.update_apply]
    split
    · rfl
    · exact hsome
  | @cancel orderId pos order hpos ho =>
    have hid : (e.orderPos { order with isActive := false }.orderId).isSome := h.recorded pos order ho
    exact h.insert rfl (h.placed _ _ hpos) hid (fun _ => id) hocc
  | @trade order pos sell buy updates _ _ htrade =>
    have hself : (e'.orderPos (order.tradeWith sell buy).orderId).isSome :=
      Option.isSome_iff_exists.2 ⟨pos, htrade.orderPos_self⟩
    refine h.insert htrade.orders_eq ?_ hself (fun orderId hsome => ?_) hocc
    · obtain ⟨placed, ot, hplace, -, -⟩ := htrade
      exact h.placed.place_lt hplace
    · rcases eq_or_ne orderId order.orderId with rfl | hne
      · exact hself
      · rwa [htrade.orderPos_of_ne hne]

end Entry.Tidy

theorem exists_tidy {n : Node lv} {allowed : Node lv → Op → Prop} {nTx persistEveryNBlock : ℕ}
    {blockOffset : Option ℕ}
    (hn : Exec.Reachable Node.step allowed (Node.new lv nTx blockOffset persistEveryNBlock) n) :
    ∃ L, Shows n.state L ∧ ∀ a e, L a = some e → e.Tidy :=
  Node.reachable_ledger (.create lv) (fun _ _ _ _ _ he h => he.change h) hn

/-! ## The slot of an order -/

/-- There is a slot for an order with this id: the one recorded for it, the one after the orders
    of the account, or that of an order that may be replaced, if the search gets there. -/
def GlobalState.Fits (s : GlobalState lv) (accountId orderId : ℕ) : Prop :=
  s.hasOrder accountId orderId ∨ ∃ orders ∈ s.orderStates.lookup accountId,
    Maps.Filled orders ∧ (orders.keys.length < lv.maxOrderNumPerUser ∨
      ∃ next ∈ s.nextOrderPositions.lookup accountId, ∃ i < 2 ^ lv.orderLevels,
        s.Replaceable accountId orderId (lv.candidatePos next i) ∧
          ∀ j ≤ i, ∀ o ∈ s.storedOrder accountId (lv.candidatePos next j), ¬o.isDefault)

omit [FluidexCommon] in
theorem Levels.candidatePos_lt (lv : Levels) (startPos i : ℕ) :
    lv.candidatePos startPos i < 2 ^ lv.orderLevels :=
  Nat.mod_lt _ (Nat.two_pow_pos _)

/-- When all the slots are in use, an order that sells something is replaced or passed over. -/
theorem Entry.Tidy.exists_stored (ht : e.Tidy) (h : Shows s L) (he : L a = some e) {orderId : ℕ}
    (hn : e.orderPos orderId = none) (hfull : e.orders.keys.length = 2 ^ lv.orderLevels) {pos : ℕ}
    (hpos : pos < 2 ^ lv.orderLevels) : ∃ o, s.storedOrder a pos = some o ∧
      (e.Yields orderId pos ↔ s.Replaceable a orderId pos ∧ ¬o.isDefault) ∧
      (e.Passes orderId pos ↔ ¬s.Replaceable a orderId pos ∧ ¬o.isDefault) := by
  have hfilled : Maps.Filled e.orders := .of_lt fun p hp => hfull ▸ ht.lt p hp
  obtain ⟨o, ho⟩ := Option.isSome_iff_exists.1 (AList.lookup_isSome.2 ((hfilled pos).2 (hfull ▸ hpos)))
  have hstored : s.storedOrder a pos = some o := (h.storedOrder_of_some he pos).trans ho
  have hne : o.orderId ≠ orderId := by
    rintro rfl
    have hrec := ht.recorded pos o ho
    rw [hn] at hrec
    cases hrec
  have hrepl : s.Replaceable a orderId pos ↔ o.IsClosed ∧ o.orderId < orderId := by
    simp only [GlobalState.Replaceable, hstored, Option.mem_def, Option.some.injEq,
      exists_eq_left']
    rfl
  refine ⟨o, hstored, ?_, ?_⟩
  · rw [hrepl, Entry.Yields, Entry.orderAt_of_some ho]
    tauto
  · rw [hrepl, Entry.Passes, Entry.orderAt_of_some ho]
    have hlt : o.orderId < orderId ↔ ¬orderId < o.orderId :=
      ⟨fun hlt => hlt.asymm, fun hnot => lt_of_le_of_ne (not_lt.1 hnot) hne⟩
    rw [hlt]
    tauto

/-- The search ends at the first order that may be replaced, unless there is one that sells
    nothing before. -/
theorem Entry.Tidy.exists_closed_iff (ht : e.Tidy) (h : Shows s L) (he : L a = some e)
    {orderId : ℕ} (hn : e.orderPos orderId = none)
    (hfull : e.orders.keys.length = 2 ^ lv.orderLevels) :
    (∃ i < 2 ^ lv.orderLevels, (∀ j < i, e.Passes orderId (lv.candidatePos e.nextOrderPos j)) ∧
        e.Yields orderId (lv.candidatePos e.nextOrderPos i)) ↔
      ∃ i < 2 ^ lv.orderLevels, s.Replaceable a orderId (lv.candidatePos e.nextOrderPos i) ∧
        ∀ j ≤ i, ∀ o ∈ s.storedOrder a (lv.candidatePos e.nextOrderPos j), ¬o.isDefault := by
  have hstored := fun j =>
    ht.exists_stored h he hn hfull (lv.candidatePos_lt e.nextOrderPos j)
  constructor
  · rintro ⟨i, hi, hpass, hyield⟩
    obtain ⟨oi, hoi, hyi, -⟩ := hstored i
    refine ⟨i, hi, (hyi.1 hyield).1, fun j hj o ho => ?_⟩
    rcases hj.lt_or_eq with hlt | rfl
    · obtain ⟨oj, hoj, -, hpj⟩ := hstored j
      obtain rfl := Option.some.inj (hoj.symm.trans ho)
      exact (hpj.1 (hpass j hlt)).2
    · obtain rfl := Option.some.inj (hoi.symm.trans ho)
      exact (hyi.1 hyield).2
  · rintro ⟨i, hi, hrepl, hsell⟩
    -- the first one is not after this one
    have hex : ∃ k, s.Replaceable a orderId (lv.candidatePos e.nextOrderPos k) := ⟨i, hrepl⟩
    have hle : Nat.find hex ≤ i := Nat.find_min' hex hrepl
    refine ⟨Nat.find hex, hle.trans_lt hi, fun j hj => ?_, ?_⟩
    · obtain ⟨oj, hoj, -, hpj⟩ := hstored j
      exact hpj.2 ⟨Nat.find_min hex hj, hsell j (hj.le.trans hle) oj hoj⟩
    · obtain ⟨ok, hok, hyk, -⟩ := hstored (Nat.find hex)
      exact hyk.2 ⟨Nat.find_spec hex, hsell _ hle ok hok⟩

/-- There is a slot exactly if one is found. -/
theorem Entry.Tidy.fits_iff (ht : e.Tidy) (h : Shows s L) (he : L a = some e) (orderId : ℕ) :
    s.Fits a orderId ↔ ∃ pos e', e.Finds orderId pos e' := by
  have hhas : s.hasOrder a orderId ↔ (e.orderPos orderId).isSome := by
    rw [GlobalState.hasOrder, ← AList.lookup_isSome, h.lookup_orderIdToPos he]
  rw [GlobalState.Fits, hhas, h.lookup_orderStates he, h.lookup_nextOrderPositions he]
  simp only [Option.mem_def, Option.some.injEq, exists_eq_left']
  cases hp : e.orderPos orderId with
  | some pos => exact iff_of_true (.inl rfl) ⟨pos, e, .known hp⟩
  | none =>
    -- The slots in use are the first ones.
    have hle : e.orders.keys.length ≤ 2 ^ lv.orderLevels := Maps.Filled.length_keys_le ht.lt
    constructor
    · rintro (hsome | ⟨hfilled, hslot⟩)
      · cases hsome
      by_cases hlt : e.orders.keys.length < 2 ^ lv.orderLevels
      · exact ⟨_, _, .free hp hlt hfilled.last⟩
      · have hfull := le_antisymm hle (not_lt.1 hlt)
        obtain ⟨i, hi, hpass, hyield⟩ :=
          (ht.exists_closed_iff h he hp hfull).2 (hslot.resolve_left hlt)
        exact ⟨_, _, .closed hp hfull hi rfl hpass hyield⟩
    · rintro ⟨pos, e', hf⟩
      right
      cases hf with
      | known hpos => cases hp.symm.trans hpos
      | free _ hlt hlast => exact ⟨Maps.Filled.last_iff.1 hlast, .inl hlt⟩
      -- The tree is full, so a closed order was replaced.
      | closed _ hfull hi hcand hpass hyield =>
        refine ⟨.of_lt fun p hp => hfull ▸ ht.lt p hp, .inr ?_⟩
        exact (ht.exists_closed_iff h he hp hfull).1 ⟨_, hi, hpass, hcand ▸ hyield⟩

/-- An account without orders has a slot. -/
theorem fits_of_keys_eq_nil {orders : BTreeMap ℕ Order}
    (ho : s.orderStates.lookup a = some orders) (hnil : orders.keys = []) (orderId : ℕ) :
    s.Fits a orderId := by
  have hnone : ∀ i, i ∉ orders := fun i hi => by
    rw [AList.mem_keys, hnil] at hi
    cases hi
  refine .inr ⟨orders, ho, .of_lt fun i hi => absurd hi (hnone i), .inl ?_⟩
  rw [hnil]
  exact Nat.two_pow_pos lv.orderLevels

/-! ## Trades -/

/-- A trade between two accounts with keys; its orders are new, or those that are stored, and
    their totals are compressed. -/
structure GlobalState.Offered (s : GlobalState lv) (tx : FullSpotTradeTx) (order1 order2 : Order) :
    Prop where
  ne : tx.trade.order1AccountId ≠ tx.trade.order2AccountId
  keyed1 : s.hasAccount tx.trade.order1AccountId
  keyed2 : s.hasAccount tx.trade.order2AccountId
  taken1 : s.takeOrder tx.makerOrder tx.trade.order1AccountId tx.trade.order1Id "order1" = .ok order1
  taken2 : s.takeOrder tx.takerOrder tx.trade.order2AccountId tx.trade.order2Id "order2" = .ok order2
  totals1 : ∃ amounts, compressTotals order1 = .ok amounts
  totals2 : ∃ amounts, compressTotals order2 = .ok amounts

/-- What a trade needs: more than what is sold, as the balances are read, and slots. -/
structure GlobalState.CanTrade (s : GlobalState lv) (tx : FullSpotTradeTx) (order1 order2 : Order) :
    Prop extends s.Offered tx order1 order2 where
  funds1 : ∀ b, s.getTokenBalance tx.trade.order1AccountId tx.trade.tokenId1to2 = .ok b →
    tx.trade.amount1to2.val < b.val
  funds2 : ∀ b, s.getTokenBalance tx.trade.order2AccountId tx.trade.tokenId2to1 = .ok b →
    tx.trade.amount2to1.val < b.val
  fits1 : s.Fits tx.trade.order1AccountId order1.orderId
  fits2 : s.Fits tx.trade.order2AccountId order2.orderId

variable {schedule : Shuffle Task} {tx : FullSpotTradeTx} {offset : Option ℤ} {order1 order2 : Order}

/-- A position that has been found has a leaf. -/
theorem Entry.Tidy.exists_tradesAt (ht : e.Tidy) {order : Order} {pos : ℕ} {placed : Entry lv}
    (hf : e.Finds order.orderId pos placed) (sell buy : Fr) (updates : List (ℕ × Fr)) :
    ∃ e', e.TradesAt order pos sell buy updates e' := by
  have hlt := ht.placed.place_lt hf.place
  obtain ⟨t, hset⟩ := e.orderTree.exists_setValue hlt (order.tradeWith sell buy).hash
  exact ⟨_, placed, t, hf, hset, rfl⟩

/-- The trades that are accepted, whatever the tokens. -/
theorem exists_fullSpotTrade_iff (h : Shows s L) (hL : ∀ a e, L a = some e → e.Tidy) :
    (∃ r, s.fullSpotTrade schedule tx offset = .ok r) ↔
      ∃ order1 order2, s.CanTrade tx order1 order2 := by
  constructor
  · rintro ⟨⟨rawTx, s'⟩, hr⟩
    -- What is accepted has met every condition.
    obtain ⟨T, e1', e2', hT, ⟨p1, -, hf1, -⟩, ⟨p2, -, hf2, -⟩, -, hdesc⟩ := fullSpotTrade_exact h hr
    obtain ⟨amounts1, amounts2, h1, h2, -⟩ := hdesc.payload
    refine ⟨T.order1, T.order2, ⟨hT.ne, ?_, ?_, hT.taken1, hT.taken2, ⟨_, h1⟩, ⟨_, h2⟩⟩,
      fun b hb => ?_, fun b hb => ?_, ?_, ?_⟩
    · exact (h.hasAccount_iff _).2 (Ledger.entry_of_some hT.entry1 ▸ hT.keyed1)
    · exact (h.hasAccount_iff _).2 (Ledger.entry_of_some hT.entry2 ▸ hT.keyed2)
    · rw [h.getTokenBalance_eq, Ledger.entry_of_some hT.entry1, Except.ok.injEq] at hb
      exact hb ▸ hT.funds1
    · rw [h.getTokenBalance_eq, Ledger.entry_of_some hT.entry2, Except.ok.injEq] at hb
      exact hb ▸ hT.funds2
    · exact ((hL _ _ hT.entry1).fits_iff h hT.entry1 _).2 ⟨_, _, hf1⟩
    · exact ((hL _ _ hT.entry2).fits_iff h hT.entry2 _).2 ⟨_, _, hf2⟩
  · rintro ⟨order1, order2, hc⟩
    obtain ⟨e1, he1, hay1⟩ := h.exists_of_hasAccount hc.keyed1
    obtain ⟨e2, he2, hay2⟩ := h.exists_of_hasAccount hc.keyed2
    obtain ⟨pos1, p1, hf1⟩ := ((hL _ _ he1).fits_iff h he1 _).1 hc.fits1
    obtain ⟨pos2, p2, hf2⟩ := ((hL _ _ he2).fits_iff h he2 _).1 hc.fits2
    -- The trade that will be made, at the slots that its orders find.
    let T : Trade lv := ⟨e1, e2, order1, order2, pos1, pos2⟩
    have hT : T.Allowed L tx :=
      { ne := hc.ne
        entry1 := he1
        entry2 := he2
        keyed1 := hay1
        keyed2 := hay2
        takes1 := takeOrder_spec h hc.taken1
        takes2 := takeOrder_spec h hc.taken2
        funds1 := hc.funds1 _ (by rw [h.getTokenBalance_eq, Ledger.entry_of_some he1])
        funds2 := hc.funds2 _ (by rw [h.getTokenBalance_eq, Ledger.entry_of_some he2])
        totals1 := hc.totals1
        totals2 := hc.totals2 }
    obtain ⟨e1', h1⟩ := (hL _ _ he1).exists_tradesAt hf1 tx.trade.amount1to2 tx.trade.amount2to1
      (T.updates1 tx.trade)
    obtain ⟨e2', h2⟩ := (hL _ _ he2).exists_tradesAt hf2 tx.trade.amount2to1 tx.trade.amount1to2
      (T.updates2 tx.trade)
    obtain ⟨r, hr, -⟩ := exists_fullSpotTrade h hT h1 h2 schedule
    exact ⟨r, hr⟩

/-- In every reachable state, a trade of tokens that have leaves completes exactly if each of the
    two accounts has more than what it sells, and there are slots for the orders. -/
theorem fullSpotTrade_completes_iff {n : Node lv} {nTx persistEveryNBlock : ℕ}
    {blockOffset : Option ℕ}
    (hn : Exec.Reachable Node.step (fun _ _ => True)
      (Node.new lv nTx blockOffset persistEveryNBlock) n)
    (ho : n.state.Offered tx order1 order2)
    (h1 : tx.trade.tokenId1to2 < 2 ^ lv.balanceLevels)
    (h2 : tx.trade.tokenId2to1 < 2 ^ lv.balanceLevels) :
    (∃ r, n.state.fullSpotTrade schedule tx offset = .ok r) ↔
      tx.trade.amount1to2.val <
          (n.state.balanceOf tx.trade.order1AccountId tx.trade.tokenId1to2).val ∧
        tx.trade.amount2to1.val <
          (n.state.balanceOf tx.trade.order2AccountId tx.trade.tokenId2to1).val ∧
        n.state.Fits tx.trade.order1AccountId order1.orderId ∧
        n.state.Fits tx.trade.order2AccountId order2.orderId := by
  obtain ⟨L, h, hL⟩ := exists_tidy hn
  rw [exists_fullSpotTrade_iff h hL]
  -- For an account with a key and a token with a leaf, what is read is the balance.
  have hread1 := h.getTokenBalance_eq tx.trade.order1AccountId tx.trade.tokenId1to2
  have hread2 := h.getTokenBalance_eq tx.trade.order2AccountId tx.trade.tokenId2to1
  rw [h.entry_balance_eq _ h1, if_pos ho.keyed1] at hread1
  rw [h.entry_balance_eq _ h2, if_pos ho.keyed2] at hread2
  constructor
  · rintro ⟨o1, o2, hc⟩
    obtain rfl := Except.ok.inj (hc.taken1.symm.trans ho.taken1)
    obtain rfl := Except.ok.inj (hc.taken2.symm.trans ho.taken2)
    exact ⟨hc.funds1 _ hread1, hc.funds2 _ hread2, hc.fits1, hc.fits2⟩
  · rintro ⟨hfunds1, hfunds2, hfits1, hfits2⟩
    refine ⟨order1, order2, ho, fun b hb => ?_, fun b hb => ?_, hfits1, hfits2⟩
    · rwa [← Except.ok.inj (hread1.symm.trans hb)]
    · rwa [← Except.ok.inj (hread2.symm.trans hb)]

end Trading

/-- A trade of the two traders, whose orders are new. -/
def tradeOf (amount1to2 amount2to1 : Fr) : FullSpotTradeTx :=
  ⟨⟨0, 1, 1, 0, amount1to2, amount2to1, 3, 4⟩, some makerOrder, some takerOrder⟩

attribute [local instance] FluidexCommon.sample in
/-- All that is needed for a trade but the amounts. -/
theorem exists_traders : ∃ n, Exec.run Node.step (Node.new Levels.small 2 none 9) traders = .ok n ∧
    (∀ x y, n.state.Offered (tradeOf x y) makerOrder takerOrder) ∧
    (n.state.Fits 0 3 ∧ n.state.Fits 1 4) ∧
    n.state.balanceOf 0 1 = 90 ∧ n.state.balanceOf 1 0 = 50 := by
  obtain ⟨n, hn⟩ := Exec.exists_eq_ok (do
    let n ← Exec.run Node.step (Node.new Levels.small 2 none 9) traders
    let o1 ← n.state.takeOrder (some makerOrder) 0 3 "order1"
    let o2 ← n.state.takeOrder (some takerOrder) 1 4 "order2"
    let _ ← compressTotals o1
    let _ ← compressTotals o2
    assert (o1 = makerOrder ∧ o2 = takerOrder) "orders"
    assert (n.state.hasAccount 0 ∧ n.state.hasAccount 1) "accounts"
    let orders1 ← unwrap (n.state.orderStates.lookup 0)
    let orders2 ← unwrap (n.state.orderStates.lookup 1)
    assert (orders1.keys = [] ∧ orders2.keys = []) "slots"
    assert (n.state.balanceOf 0 1 = 90 ∧ n.state.balanceOf 1 0 = 50) "balances"
    pure n) (by decide +kernel)
  simp only [Exec.bind_eq_ok_iff, Exec.assert_eq_ok_iff, Exec.unwrap_eq_ok_iff,
    Exec.pure_eq_ok_iff] at hn
  obtain ⟨n, hn, _, htaken1, _, htaken2, _, htotals1, _, htotals2, _, ⟨rfl, rfl⟩, _,
    ⟨hkeyed1, hkeyed2⟩, orders1, horders1, orders2, horders2, _, ⟨hnil1, hnil2⟩, _, hbalances, rfl⟩ := hn
  exact ⟨n, hn, fun _ _ => ⟨zero_ne_one, hkeyed1, hkeyed2, htaken1, htaken2, ⟨_, htotals1⟩,
    ⟨_, htotals2⟩⟩, ⟨fits_of_keys_eq_nil horders1 hnil1 3, fits_of_keys_eq_nil horders2 hnil2 4⟩,
    hbalances⟩

attribute [local instance] FluidexCommon.sample in
/-- Five units of the token `1` for six of the token `0`. -/
theorem fullSpotTrade_completes_iff_fiveForSix :
    ∃ n, Exec.run Node.step (Node.new Levels.small 2 none 9) traders = .ok n ∧
      ∃ r, n.state.fullSpotTrade .id (tradeOf 5 6) none = .ok r := by
  obtain ⟨n, hn, hoffered, ⟨hfits1, hfits2⟩, hbal1, hbal2⟩ := exists_traders
  refine ⟨n, hn, (fullSpotTrade_completes_iff (Exec.Reachable.init.run (fun _ _ _ => trivial) hn)
    (hoffered 5 6) (by decide) (by decide)).2 ⟨?_, ?_, hfits1, hfits2⟩⟩
  · change (5 : Fr).val < (n.state.balanceOf 0 1).val
    rw [hbal1]
    decide
  · change (6 : Fr).val < (n.state.balanceOf 1 0).val
    rw [hbal2]
    decide

attribute [local instance] FluidexCommon.sample in
/-- The whole balances of the two accounts can be transferred, but not traded. -/
theorem not_completes_wholeBalances :
    ∃ n, Exec.run Node.step (Node.new Levels.small 2 none 9) traders = .ok n ∧
      n.state.Offered (tradeOf 90 50) makerOrder takerOrder ∧
      (n.state.Fits 0 3 ∧ n.state.Fits 1 4) ∧
      n.state.balanceOf 0 1 = 90 ∧ n.state.balanceOf 1 0 = 50 ∧
      n.state.fullSpotTrade .id (tradeOf 90 50) none = .error (.assertion "balance_1to2") ∧
      (∃ r, n.state.transfer .id ⟨0, 1, 1, 90, 0, .default, none⟩ none = .ok r) ∧
      ∃ r, n.state.transfer .id ⟨1, 0, 0, 50, 0, .default, none⟩ none = .ok r := by
  obtain ⟨n, hn, hoffered, hfits, hbal1, hbal2⟩ := exists_traders
  obtain ⟨⟨m, r1, r2⟩, hm⟩ := Exec.exists_eq_ok (do
    let n ← Exec.run Node.step (Node.new Levels.small 2 none 9) traders
    assert ((n.state.fullSpotTrade .id (tradeOf 90 50) none).map (fun _ => ()) =
      .error (.assertion "balance_1to2")) "a panic"
    let r1 ← n.state.transfer .id ⟨0, 1, 1, 90, 0, .default, none⟩ none
    let r2 ← n.state.transfer .id ⟨1, 0, 0, 50, 0, .default, none⟩ none
    pure (n, r1, r2)) (by decide +kernel)
  simp only [Exec.bind_eq_ok_iff, Exec.assert_eq_ok_iff, Exec.pure_eq_ok_iff, Prod.mk.injEq] at hm
  obtain ⟨m, hm, _, hpanic, r1, hr1, r2, hr2, rfl, rfl, rfl⟩ := hm
  obtain rfl := Except.ok.inj (hn.symm.trans hm)
  exact ⟨n, hn, hoffered 90 50, hfits, hbal1, hbal2, Exec.map_eq_error_iff.1 hpanic, ⟨r1, hr1⟩, r2,
    hr2⟩

end Rollup
