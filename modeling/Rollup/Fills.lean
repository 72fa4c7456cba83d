import Rollup.Positions

/-!
# The fills of the orders

An order is filled by many trades, may be cancelled, and its slot may be taken by another
order. The trades that are accepted along a run (`Node.fillings`) say how much of every order
has been traded (`sold`, `bought`), and the orders that are stored have these fills
(`filled_of_run`), if every trade is about the orders it names (`Op.NamesOrders`). The slots
that are reused do not get in the way: the ids that were used stay known, so an order that has
lost its slot does not come back.

If the trades are authorised by the orders, then all of the trades of an order together, from
the first one to the last one of the run, sell at most what the order offers (`sold_le_of_run`).
-/

namespace Rollup

/-- A side of a trade, and its order before the trade. -/
abbrev Filling := TradeSide × Order

section Fills

variable {a orderId : ℕ}

/-- What is sold of an order. -/
def sold (fs : List Filling) (accountId orderId : ℕ) : ℕ :=
  (fs.map fun f =>
    if f.1.accountId = accountId ∧ f.1.orderId = orderId then f.1.sell.val else 0).sum

/-- What is bought by an order. -/
def bought (fs : List Filling) (accountId orderId : ℕ) : ℕ :=
  (fs.map fun f =>
    if f.1.accountId = accountId ∧ f.1.orderId = orderId then f.1.buy.val else 0).sum

theorem sold_append (fs fs' : List Filling) (a orderId : ℕ) :
    sold (fs ++ fs') a orderId = sold fs a orderId + sold fs' a orderId := by
  rw [sold, List.map_append, List.sum_append]
  rfl

theorem bought_append (fs fs' : List Filling) (a orderId : ℕ) :
    bought (fs ++ fs') a orderId = bought fs a orderId + bought fs' a orderId := by
  rw [bought, List.map_append, List.sum_append]
  rfl

theorem sold_singleton (f : Filling) (a orderId : ℕ) : sold [f] a orderId =
    if f.1.accountId = a ∧ f.1.orderId = orderId then f.1.sell.val else 0 := by
  rw [sold, List.map_singleton, List.sum_singleton]

theorem bought_singleton (f : Filling) (a orderId : ℕ) : bought [f] a orderId =
    if f.1.accountId = a ∧ f.1.orderId = orderId then f.1.buy.val else 0 := by
  rw [bought, List.map_singleton, List.sum_singleton]

/-- Nothing is traded of an order without trades. -/
theorem sold_eq_zero {fs : List Filling}
    (h : ∀ f ∈ fs, ¬(f.1.accountId = a ∧ f.1.orderId = orderId)) :
    sold fs a orderId = 0 ∧ bought fs a orderId = 0 := by
  have hzero (g : Filling → ℕ) : (fs.map fun f =>
      if f.1.accountId = a ∧ f.1.orderId = orderId then g f else 0).sum = 0 :=
    List.sum_eq_zero fun n hn => by
      obtain ⟨f, hf, rfl⟩ := List.mem_map.1 hn
      exact if_neg (h f hf)
  exact ⟨hzero _, hzero _⟩

variable [FluidexCommon] {lv : Levels} {s s' : GlobalState lv} {L : Ledger lv} {e e' : Entry lv}
  {fs : List Filling}

/-! ## The orders of an account -/

/-- The orders of an account have the fills of the trades. -/
structure Entry.Filled (a : ℕ) (fs : List Filling) (e : Entry lv) : Prop where
  recorded : e.Recorded
  occupied : e.Occupied
  /-- The ids that were used stay known. -/
  known : ∀ f ∈ fs, f.1.accountId = a → e.orderPos f.1.orderId ≠ none
  fills : ∀ pos o, e.orders.lookup pos = some o →
    o.filledSell = (sold fs a o.orderId : ℕ) ∧ o.filledBuy = (bought fs a o.orderId : ℕ)
  /-- The orders were the same in all of their trades, but for the fills. -/
  totals : ∀ pos o, e.orders.lookup pos = some o → ∀ f ∈ fs, f.1.accountId = a →
    f.1.orderId = o.orderId → f.2.totalSell = o.totalSell

namespace Entry.Filled

/-- A new account has no orders, and nothing has been filled. -/
theorem create (lv : Levels) (a n : ℕ) : (Entry.create lv n).Filled a [] where
  recorded := .create lv n
  occupied := .create lv n
  known f hf := by cases hf
  fills pos o ho := by cases ho
  totals pos o ho := by cases ho

omit [FluidexCommon] in
/-- What keeps the orders and the positions keeps what they have filled. -/
theorem congr (h : e.Filled a fs) (ho : e'.orders = e.orders) (hp : e'.orderPos = e.orderPos) :
    e'.Filled a fs where
  recorded pos o := by rw [ho, hp]; exact h.recorded pos o
  occupied id pos := by rw [ho, hp]; exact h.occupied id pos
  known f := by rw [hp]; exact h.known f
  fills pos o := by rw [ho]; exact h.fills pos o
  totals pos o := by rw [ho]; exact h.totals pos o

omit [FluidexCommon] in
/-- The trades of the other accounts do not matter. -/
theorem skip (h : e.Filled a fs) {f : Filling} (hf : f.1.accountId ≠ a) :
    e.Filled a (fs ++ [f]) where
  recorded := h.recorded
  occupied := h.occupied
  known g hg hga := by
    rcases List.mem_append.1 hg with hg | hg
    · exact h.known g hg hga
    · obtain rfl := List.mem_singleton.1 hg
      exact absurd hga hf
  fills pos o ho := by
    rw [sold_append, bought_append, sold_singleton, bought_singleton,
      if_neg fun hc => hf hc.1, if_neg fun hc => hf hc.1]
    exact h.fills pos o ho
  totals pos o ho g hg hga := by
    rcases List.mem_append.1 hg with hg | hg
    · exact h.totals pos o ho g hg hga
    · obtain rfl := List.mem_singleton.1 hg
      exact absurd hga hf

omit [FluidexCommon] in
/-- An order that a side takes has the fills of its trades, and is the same as in them. -/
theorem takes (h : e.Filled a fs) (he : L a = some e) {supplied : Option Order} {order : Order}
    (htakes : L.Takes supplied a orderId order) (hids : order.HasIds a orderId) :
    (order.filledSell = (sold fs a orderId : ℕ) ∧ order.filledBuy = (bought fs a orderId : ℕ)) ∧
      ∀ f ∈ fs, f.1.accountId = a → f.1.orderId = orderId → f.2.totalSell = order.totalSell := by
  cases supplied with
  | some o =>
    obtain ⟨rfl, hbuy, hsell, hnew⟩ := htakes
    -- the id is not known, so there was no trade of the order
    have hnone : ∀ f ∈ fs, ¬(f.1.accountId = a ∧ f.1.orderId = orderId) := by
      rintro f hf ⟨hfa, hfid⟩
      obtain ⟨pos, hpos⟩ := Option.ne_none_iff_exists'.1 (h.known f hf hfa)
      exact hnew ⟨e, pos, by rw [hids.1, he], by rw [hids.2, ← hfid, hpos]⟩
    obtain ⟨hsold, hbought⟩ := sold_eq_zero hnone
    rw [hsold, hbought, Nat.cast_zero]
    exact ⟨⟨hsell, hbuy⟩, fun f hf hfa hfid => absurd ⟨hfa, hfid⟩ (hnone f hf)⟩
  | none =>
    obtain ⟨e₀, pos, he₀, hpos, rfl⟩ := htakes
    obtain rfl := Option.some.inj (he.symm.trans he₀)
    obtain ⟨o, ho⟩ := h.occupied _ _ hpos
    rw [Entry.orderAt_of_some ho] at hids ⊢
    obtain rfl : o.orderId = orderId := hids.2
    exact ⟨h.fills pos o ho, h.totals pos o ho⟩

/-- A trade adds to the fills of its order. -/
theorem trades (h : e.Filled a fs) (he : L a = some e) {side : TradeSide} {order : Order}
    (ha : side.accountId = a) (htakes : L.Takes side.supplied a side.orderId order)
    (hids : order.HasIds a side.orderId) {pos : ℕ} {updates : List (ℕ × Fr)}
    (ht : e.Trades order pos side.sell side.buy updates e') :
    e'.Filled a (fs ++ [(side, order)]) := by
  obtain ⟨⟨hsell, hbuy⟩, htotals⟩ := h.takes he htakes hids
  have hrecorded := h.recorded.trades ht
  -- an order at another position has another id
  have hother : ∀ pos' o, pos' ≠ pos → e'.orders.lookup pos' = some o →
      side.orderId ≠ o.orderId := by
    intro pos' o hpos ho hid
    refine hpos (Option.some.inj ?_)
    rw [← hrecorded pos' o ho, ← ht.orderPos_self, hids.2, hid]
  refine ⟨hrecorded, h.occupied.trades ht, fun f hf hfa => ?_, fun pos' o ho => ?_,
    fun pos' o ho f hf hfa hfid => ?_⟩
  · by_cases hid : f.1.orderId = order.orderId
    · rw [hid, ht.orderPos_self]
      exact Option.some_ne_none _
    · rw [ht.orderPos_of_ne hid]
      rcases List.mem_append.1 hf with hf | hf
      · exact h.known f hf hfa
      · obtain rfl := List.mem_singleton.1 hf
        exact absurd hids.2.symm hid
  · rw [sold_append, bought_append, sold_singleton, bought_singleton]
    by_cases hpos : pos' = pos
    · rw [hpos, ht.lookup_orders_self] at ho
      obtain rfl := Option.some.inj ho
      have hid : side.accountId = a ∧ side.orderId = (order.tradeWith side.sell side.buy).orderId :=
        ⟨ha, hids.2.symm⟩
      rw [if_pos hid, if_pos hid, Nat.cast_add, Nat.cast_add, ZMod.natCast_zmod_val,
        ZMod.natCast_zmod_val]
      rw [← hid.2, ← hsell, ← hbuy]
      exact ⟨rfl, rfl⟩
    · have hne := hother pos' o hpos ho
      rw [if_neg fun hc => hne hc.2, if_neg fun hc => hne hc.2]
      exact h.fills pos' o (by rwa [← ht.lookup_orders_of_ne hpos])
  · by_cases hpos : pos' = pos
    · rw [hpos, ht.lookup_orders_self] at ho
      obtain rfl := Option.some.inj ho
      rcases List.mem_append.1 hf with hf | hf
      · exact htotals f hf hfa (hfid.trans hids.2)
      · obtain rfl := List.mem_singleton.1 hf
        rfl
    · rcases List.mem_append.1 hf with hf | hf
      · exact h.totals pos' o (by rwa [← ht.lookup_orders_of_ne hpos]) f hf hfa hfid
      · obtain rfl := List.mem_singleton.1 hf
        exact absurd hfid (hother pos' o hpos ho)

omit [FluidexCommon] in
/-- A cancelled order has sold and bought what it had. -/
theorem cancel (h : e.Filled a fs) {pos : ℕ} {order : Order}
    (ho : e.orders.lookup pos = some order) :
    (e.setOrder pos { order with isActive := false }).Filled a fs where
  recorded := h.recorded.cancel ho
  occupied id pos' hp := Entry.Occupied.lookup_insert (h.occupied id pos' hp)
  known := h.known
  fills pos' o ho' := by
    change (e.orders.insert pos { order with isActive := false }).lookup pos' = some o at ho'
    rw [lookup_insert_ite] at ho'
    split at ho'
    · obtain rfl := Option.some.inj ho'
      exact h.fills pos order ho
    · exact h.fills pos' o ho'
  totals pos' o ho' := by
    change (e.orders.insert pos { order with isActive := false }).lookup pos' = some o at ho'
    rw [lookup_insert_ite] at ho'
    split at ho'
    · obtain rfl := Option.some.inj ho'
      exact h.totals pos order ho
    · exact h.totals pos' o ho'

end Entry.Filled

/-! ## Operations -/

/-- The sides of an accepted trade, with their orders. -/
def GlobalState.fillings (s : GlobalState lv) : Op → List Filling
  | .fullSpotTrade schedule tx offset =>
    match s.fullSpotTrade schedule tx offset with
    | .ok _ => tx.sides.filterMap fun side => (s.orderOf side).toOption.map fun o => (side, o)
    | .error _ => []
  | _ => []

/-- The trades along a run, one side after the other. -/
def Node.fillings : Node lv → List Op → List Filling
  | _, [] => []
  | n, op :: ops => n.state.fillings op ++
    match n.step op with
    | .ok n' => n'.fillings ops
    | .error _ => []

/-- The orders of a trade are those that it names, and no order is set directly. -/
def Op.NamesOrders (s : GlobalState lv) : Op → Prop
  | .setAccountOrder _ _ _ => False
  | .fullSpotTrade _ tx _ => ∀ side ∈ tx.sides, ∀ o, s.orderOf side = .ok o →
      o.HasIds side.accountId side.orderId
  | _ => True

instance (s : GlobalState lv) : (op : Op) → Decidable (op.NamesOrders s)
  | .setAccountOrder _ _ _ => .isFalse id
  | .fullSpotTrade _ tx _ => inferInstanceAs (Decidable (∀ side ∈ tx.sides, ∀ o,
      s.orderOf side = .ok o → o.HasIds side.accountId side.orderId))
  | .createNewAccount _ | .setAccountL2Addr _ _ _ | .setAccountNonce _ _ | .setTokenBalance _ _ _
  | .keyUpdate _ _ | .deposit _ _ | .transfer _ _ _ | .withdraw _ _ | .cancelOrder _ _ | .nop
  | .flushWithNop | .popAllBlocks => .isTrue trivial

/-- The maker's side of an accepted trade. -/
def Trade.filling1 (T : Trade lv) (tx : FullSpotTradeTx) : Filling :=
  let t := tx.trade
  (⟨t.order1AccountId, t.order1Id, t.tokenId1to2, t.tokenId2to1, t.amount1to2, t.amount2to1,
    tx.makerOrder, "order1"⟩, T.order1)

/-- The taker's side. -/
def Trade.filling2 (T : Trade lv) (tx : FullSpotTradeTx) : Filling :=
  let t := tx.trade
  (⟨t.order2AccountId, t.order2Id, t.tokenId2to1, t.tokenId1to2, t.amount2to1, t.amount1to2,
    tx.takerOrder, "order2"⟩, T.order2)

/-- A trade fills two orders. -/
theorem append_fillings_of_accepted (fs : List Filling) {T : Trade lv} {tx : FullSpotTradeTx}
    (hT : T.Accepted s L tx) {schedule : Shuffle Task} {offset : Option ℤ} {rawTx : RawTx}
    (hr : s.fullSpotTrade schedule tx offset = .ok (rawTx, s')) :
    fs ++ s.fillings (.fullSpotTrade schedule tx offset) =
      (fs ++ [T.filling1 tx]) ++ [T.filling2 tx] := by
  have h1 := hT.taken1
  have h2 := hT.taken2
  rw [List.append_assoc, GlobalState.fillings, hr]
  simp only [FullSpotTradeTx.sides, GlobalState.orderOf, List.filterMap_cons, List.filterMap_nil,
    h1, h2]
  rfl

/-- A trade adds to the fills of its two orders. -/
theorem fullSpotTrade_filled (h : Shows s L) (hL : ∀ a, (L.entry a).Filled a fs)
    {schedule : Shuffle Task} {tx : FullSpotTradeTx} {offset : Option ℤ} {rawTx : RawTx}
    (hop : (Op.fullSpotTrade schedule tx offset).NamesOrders s)
    (hr : s.fullSpotTrade schedule tx offset = .ok (rawTx, s')) :
    ∃ L', Shows s' L' ∧ ∀ a, (L'.entry a).Filled a
      (fs ++ s.fillings (.fullSpotTrade schedule tx offset)) := by
  obtain ⟨T, e1', e2', hT, ht⟩ := fullSpotTrade_traded h hr
  rw [append_fillings_of_accepted fs hT hr]
  refine ⟨_, ht.shows, fun a => ?_⟩
  have hids1 := hop _ List.mem_cons_self _ hT.taken1
  have hids2 := hop _ (List.mem_cons_of_mem _ List.mem_cons_self) _ hT.taken2
  rw [Ledger.entry_set, Ledger.entry_set]
  have hold := hL a
  split
  · next ha =>
    -- the second account
    subst ha
    rw [Ledger.entry_of_some hT.entry2] at hold
    exact (hold.skip hT.ne).trades hT.entry2 rfl hT.takes2 hids2 ht.trades2
  · next ha2 =>
    split
    · next ha =>
      subst ha
      rw [Ledger.entry_of_some hT.entry1] at hold
      exact (hold.trades hT.entry1 rfl hT.takes1 hids1 ht.trades1).skip hT.ne.symm
    · next ha1 => exact (hold.skip (Ne.symm ha1)).skip (Ne.symm ha2)

/-- One operation adds its fillings. -/
theorem apply_filled (h : Shows s L) (hL : ∀ a, (L.entry a).Filled a fs) {op : Op}
    (hop : op.NamesOrders s) {raw : Option RawTx} (hr : s.apply op = .ok (raw, s')) :
    ∃ L', Shows s' L' ∧ ∀ a, (L'.entry a).Filled a (fs ++ s.fillings op) := by
  by_cases hon : op.OnOrders
  swap
  · obtain ⟨L', h', hsame⟩ := apply_sameOrders h hon hr
    have hnone : s.fillings op = [] := by
      cases op with
      | fullSpotTrade _ _ _ => exact absurd trivial hon
      | _ => rfl
    rw [hnone, List.append_nil]
    exact ⟨L', h', fun a => (hL a).congr (hsame a).1 (hsame a).2⟩
  cases GlobalState.applied hr with
  | setAccountOrder _ => exact hop.elim
  | fullSpotTrade hr => exact fullSpotTrade_filled h hL hop hr
  | cancelOrder hr =>
    obtain ⟨e, pos, order, he, -, ho, h'⟩ := cancelOrder_spec h hr
    refine ⟨_, h', fun a => ?_⟩
    change Entry.Filled a (fs ++ []) _
    rw [List.append_nil, Ledger.entry_set]
    split
    · next ha =>
      subst ha
      exact (Ledger.entry_of_some he ▸ hL a).cancel ho
    · exact hL a
  | createNewAccount _ | setAccountL2Addr _ | setAccountNonce _ | setTokenBalance _ | keyUpdate _
  | deposit _ | transfer _ | withdraw _ | nop | flushWithNop | popAllBlocks => exact hon.elim

/-! ## Runs -/

/-- The trades of a run, the first step being taken. -/
theorem Node.fillings_cons {n n₁ : Node lv} {op : Op} {ops : List Op} (hst : n.step op = .ok n₁) :
    n.fillings (op :: ops) = n.state.fillings op ++ n₁.fillings ops := by
  rw [fillings, hst]

/-- A run adds the fillings of its operations. -/
theorem filled_run {n n' : Node lv} {ops : List Op} (h : Shows n.state L)
    (hL : ∀ a, (L.entry a).Filled a fs)
    (hops : Exec.Along Node.step (fun m op => op.NamesOrders m.state) n ops)
    (hrun : Exec.run Node.step n ops = .ok n') :
    ∃ L', Shows n'.state L' ∧ ∀ a, (L'.entry a).Filled a (fs ++ n.fillings ops) := by
  induction ops generalizing n L fs with
  | nil =>
    obtain rfl := Exec.run_nil.1 hrun
    rw [Node.fillings, List.append_nil]
    exact ⟨L, h, hL⟩
  | cons op ops ih =>
    obtain ⟨n₁, hst, hrun⟩ := Exec.run_cons.1 hrun
    obtain ⟨hop, hops⟩ := hops
    obtain ⟨raw, hr⟩ := Node.step_state hst
    obtain ⟨L₁, h₁, hL₁⟩ := apply_filled h hL hop hr
    rw [Node.fillings_cons hst, ← List.append_assoc]
    exact ih h₁ hL₁ (hops _ hst) hrun

/-- After a run in which the trades are about the orders they name, every order that is stored has
    the fills of all its trades along the run. -/
theorem filled_of_run {nTx persistEveryNBlock : ℕ} {blockOffset : Option ℕ} {n : Node lv}
    {ops : List Op}
    (hops : Exec.Along Node.step (fun m op => op.NamesOrders m.state)
      (Node.new lv nTx blockOffset persistEveryNBlock) ops)
    (hrun : Exec.run Node.step (Node.new lv nTx blockOffset persistEveryNBlock) ops = .ok n)
    {a pos : ℕ} {o : Order} (ho : n.state.storedOrder a pos = some o) :
    o.filledSell =
        (sold ((Node.new lv nTx blockOffset persistEveryNBlock).fillings ops) a o.orderId : ℕ) ∧
      o.filledBuy = (bought ((Node.new lv nTx blockOffset persistEveryNBlock).fillings ops) a
        o.orderId : ℕ) := by
  obtain ⟨L, h, hL⟩ := filled_run (shows_new lv) (fun a => .create lv a _) hops hrun
  rw [h.storedOrder_entry] at ho
  exact (hL a).fills pos o ho

/-! ## Limits -/

/-- The trades of every order together sell at most what it offers. -/
def Limited (fs : List Filling) : Prop :=
  ∀ f ∈ fs, sold fs f.1.accountId f.1.orderId ≤ f.2.totalSell.val

omit [FluidexCommon] in
/-- An authorised trade keeps to the limit of its order. -/
theorem Limited.append (hfs : Limited fs) {side : TradeSide} {order : Order}
    (he : L side.accountId = some e) (h : e.Filled side.accountId fs)
    (htakes : L.Takes side.supplied side.accountId side.orderId order)
    (hauth : order.Authorises side) : Limited (fs ++ [(side, order)]) := by
  obtain ⟨hids, -, -, -, hleft⟩ := hauth
  obtain ⟨⟨hsell, -⟩, htotals⟩ := h.takes he htakes hids
  -- what was sold before is what the order says
  have hval : order.filledSell.val = sold fs side.accountId side.orderId := by
    by_cases hsome : ∃ f ∈ fs, f.1.accountId = side.accountId ∧ f.1.orderId = side.orderId
    · obtain ⟨f, hf, hfa, hfid⟩ := hsome
      have hle := hfs f hf
      rw [hfa, hfid] at hle
      rw [hsell, ZMod.val_natCast_of_lt (hle.trans_lt (ZMod.val_lt _))]
    · simp only [not_exists, not_and] at hsome
      have hzero := (sold_eq_zero fun f hf hc => hsome f hf hc.1 hc.2).1
      rw [hsell, hzero, Nat.cast_zero, ZMod.val_zero]
  intro f hf
  rw [sold_append, sold_singleton]
  by_cases hsame : side.accountId = f.1.accountId ∧ side.orderId = f.1.orderId
  · rw [if_pos hsame, ← hsame.1, ← hsame.2, ← hval]
    rcases List.mem_append.1 hf with hf | hf
    · rw [htotals f hf hsame.1.symm hsame.2.symm]
      exact hleft
    · obtain rfl := List.mem_singleton.1 hf
      exact hleft
  · rw [if_neg hsame, Nat.add_zero]
    rcases List.mem_append.1 hf with hf | hf
    · exact hfs f hf
    · obtain rfl := List.mem_singleton.1 hf
      exact absurd ⟨rfl, rfl⟩ hsame

/-- An authorised operation sells no more of an order than its total. -/
theorem apply_limited (h : Shows s L) (hL : ∀ a, (L.entry a).Filled a fs) (hfs : Limited fs)
    {op : Op} (hop : op.NamesOrders s) (hauth : op.Authorised s) {raw : Option RawTx}
    (hr : s.apply op = .ok (raw, s')) : Limited (fs ++ s.fillings op) := by
  cases op with
  | fullSpotTrade schedule tx offset =>
    cases GlobalState.applied hr with
    | fullSpotTrade hr =>
      obtain ⟨T, e1', e2', hT, ht⟩ := fullSpotTrade_traded h hr
      rw [append_fillings_of_accepted fs hT hr]
      have hauth1 := hauth _ List.mem_cons_self _ hT.taken1
      have hauth2 := hauth _ (List.mem_cons_of_mem _ List.mem_cons_self) _ hT.taken2
      have hold1 := hL tx.trade.order1AccountId
      rw [Ledger.entry_of_some hT.entry1] at hold1
      have hold2 := hL tx.trade.order2AccountId
      rw [Ledger.entry_of_some hT.entry2] at hold2
      have hfirst := hfs.append hT.entry1 hold1 hT.takes1 hauth1
      exact hfirst.append hT.entry2 (hold2.skip hT.ne) hT.takes2 hauth2
  | _ =>
    change Limited (fs ++ [])
    rwa [List.append_nil]

/-- The operations of an authorised run sell no more of an order than its total. -/
theorem limited_run {n n' : Node lv} {ops : List Op} (h : Shows n.state L)
    (hL : ∀ a, (L.entry a).Filled a fs) (hfs : Limited fs)
    (hops : Exec.Along Node.step (fun m op => op.NamesOrders m.state ∧ op.Authorised m.state) n ops)
    (hrun : Exec.run Node.step n ops = .ok n') : Limited (fs ++ n.fillings ops) := by
  induction ops generalizing n L fs with
  | nil => rwa [Node.fillings, List.append_nil]
  | cons op ops ih =>
    obtain ⟨n₁, hst, hrun⟩ := Exec.run_cons.1 hrun
    obtain ⟨⟨hop, hauth⟩, hops⟩ := hops
    obtain ⟨raw, hr⟩ := Node.step_state hst
    obtain ⟨L₁, h₁, hL₁⟩ := apply_filled h hL hop hr
    rw [Node.fillings_cons hst, ← List.append_assoc]
    exact ih h₁ hL₁ (apply_limited h hL hfs hop hauth hr) (hops _ hst) hrun

/-- In a run of authorised trades, all of the trades of an order together, be it stored in the end
    or not, sell at most what it offers. -/
theorem sold_le_of_run {nTx persistEveryNBlock : ℕ} {blockOffset : Option ℕ} {n : Node lv}
    {ops : List Op} {fs : List Filling}
    (hops : Exec.Along Node.step (fun m op => op.NamesOrders m.state ∧ op.Authorised m.state)
      (Node.new lv nTx blockOffset persistEveryNBlock) ops)
    (hrun : Exec.run Node.step (Node.new lv nTx blockOffset persistEveryNBlock) ops = .ok n)
    (hfs : (Node.new lv nTx blockOffset persistEveryNBlock).fillings ops = fs) :
    ∀ f ∈ fs, sold fs f.1.accountId f.1.orderId ≤ f.2.totalSell.val := by
  have hlimited := limited_run (shows_new lv) (fun a => .create lv a _)
    (fun f hf => (by cases hf)) hops hrun
  rwa [List.nil_append, hfs] at hlimited

end Fills

/-- The order `3` is traded twice and cancelled, and loses its slot to the order `7`. -/
def filledOps : List Op :=
  traders ++ [
    .fullSpotTrade .id ⟨⟨0, 1, 1, 0, 5, 6, 3, 4⟩, some tenForTwelve,
      some { sixForFive with totalSell := 12, totalBuy := 10 }⟩ none,
    .fullSpotTrade .id ⟨⟨0, 1, 1, 0, 1, 2, 3, 4⟩, none, none⟩ none,
    .cancelOrder 0 3,
    .fullSpotTrade .id ⟨⟨0, 1, 1, 0, 1, 1, 5, 4⟩, some { tenForTwelve with orderId := 5 }, none⟩
      none,
    .fullSpotTrade .id ⟨⟨0, 1, 1, 0, 1, 1, 7, 4⟩, some { tenForTwelve with orderId := 7 }, none⟩
      none]

attribute [local instance] FluidexCommon.sample in
/-- An order that four trades fill, against orders that share a slot. -/
theorem filled_of_run_filledOps :
    ∃ n o, Exec.run Node.step (Node.new Levels.small 2 none 9) filledOps = .ok n ∧
      n.state.storedOrder 1 0 = some o ∧ o.filledSell = 10 ∧
      o.filledSell =
        (sold ((Node.new Levels.small 2 none 9).fillings filledOps) 1 o.orderId : ℕ) := by
  obtain ⟨⟨n, o⟩, hn⟩ := Exec.exists_eq_ok (do
    let n ← Exec.run (Exec.guarded Node.step .unwrap fun n op => op.NamesOrders n.state)
      (Node.new Levels.small 2 none 9) filledOps
    let o ← unwrap (n.state.storedOrder 1 0)
    assert (o.filledSell = 10) "fills"
    pure (n, o)) (by decide +kernel)
  simp only [Exec.bind_eq_ok_iff, Exec.assert_eq_ok_iff, Exec.unwrap_eq_ok_iff,
    Exec.pure_eq_ok_iff, Prod.mk.injEq] at hn
  obtain ⟨n, hn, o, ho, _, hten, rfl, rfl⟩ := hn
  obtain ⟨-, hrun⟩ := Exec.Reachable.init.of_guarded hn
  exact ⟨n, o, hrun, ho, hten, (filled_of_run (Exec.along_of_guarded hn) hrun ho).1⟩

attribute [local instance] FluidexCommon.sample in
/-- The order `3`, which is not stored any more, has sold six of ten. -/
theorem sold_le_of_run_filledOps :
    ∃ n fs, Exec.run Node.step (Node.new Levels.small 2 none 9) filledOps = .ok n ∧
      (n.state.storedOrder 0 0).map Order.orderId = some 7 ∧
      (n.state.storedOrder 0 1).map Order.orderId = some 5 ∧ sold fs 0 3 = 6 ∧
      ∀ f ∈ fs, sold fs f.1.accountId f.1.orderId ≤ f.2.totalSell.val := by
  obtain ⟨n, hn⟩ := Exec.exists_eq_ok (do
    let n ← Exec.run
      (Exec.guarded Node.step .unwrap fun n op => op.NamesOrders n.state ∧ op.Authorised n.state)
      (Node.new Levels.small 2 none 9) filledOps
    assert ((n.state.storedOrder 0 0).map Order.orderId = some 7 ∧
      (n.state.storedOrder 0 1).map Order.orderId = some 5) "slots"
    pure n) (by decide +kernel)
  simp only [Exec.bind_eq_ok_iff, Exec.assert_eq_ok_iff, Exec.pure_eq_ok_iff] at hn
  obtain ⟨n, hn, _, ⟨h0, h1⟩, rfl⟩ := hn
  obtain ⟨-, hrun⟩ := Exec.Reachable.init.of_guarded hn
  exact ⟨n, _, hrun, h0, h1, by decide +kernel, sold_le_of_run (Exec.along_of_guarded hn) hrun rfl⟩

end Rollup
