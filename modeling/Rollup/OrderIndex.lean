import Rollup.Authorisation

/-!
# The index of the orders

The positions recorded for the ids of the orders should be an index of the orders
that are stored (`GlobalState.OrdersIndexed`). It is so as long as every new order
gets a free slot. When a closed order is replaced, its id stays recorded: it is
then found, and cancelled, in the place of the order that has replaced it
(`ordersIndexed_iff`).
-/

namespace Rollup

section OrderIndex

variable [FluidexCommon] {lv : Levels} {s s' : GlobalState lv} {L : Ledger lv} {a : ℕ}
  {e e' : Entry lv}

/-! ## The index of an account -/

/-- A position is recorded for an id exactly when there is an order with this id. -/
def Entry.Indexed (e : Entry lv) : Prop :=
  ∀ orderId pos, e.orderPos orderId = some pos ↔
    ∃ o, e.orders.lookup pos = some o ∧ o.orderId = orderId

namespace Entry.Indexed

theorem create (lv : Levels) (n : ℕ) : (Entry.create lv n).Indexed :=
  fun _ _ => ⟨fun h => (by cases h), fun ⟨_, h, _⟩ => (by cases h)⟩

omit [FluidexCommon] in
theorem congr (he : e.Indexed) (ho : e'.orders = e.orders) (hp : e'.orderPos = e.orderPos) :
    e'.Indexed := by
  intro orderId pos
  rw [ho, hp]
  exact he orderId pos

omit [FluidexCommon] in
/-- The positions of different orders have different ids. -/
theorem orderPos_of_lookup (he : e.Indexed) {pos : ℕ} {o : Order}
    (ho : e.orders.lookup pos = some o) : e.orderPos o.orderId = some pos :=
  (he o.orderId pos).2 ⟨o, ho, rfl⟩

omit [FluidexCommon] in
/-- Replacing an order by one with the same id. -/
theorem insert_known (he : e.Indexed) {order : Order} {pos : ℕ}
    (hp : e.orderPos order.orderId = some pos) (ho : e'.orders = e.orders.insert pos order)
    (hp' : e'.orderPos = e.orderPos) : e'.Indexed := by
  intro orderId p
  obtain ⟨old, hold, hid⟩ := (he _ _).1 hp
  rw [hp', he orderId p, ho]
  simp only [lookup_insert_ite]
  split
  · next hpos =>
    subst hpos
    simp [hold, hid]
  · rfl

omit [FluidexCommon] in
/-- Storing an order whose id is new at a free position. -/
theorem insert_free (he : e.Indexed) {order : Order} {pos : ℕ}
    (hn : e.orderPos order.orderId = none) (hfree : e.orders.lookup pos = none)
    (ho : e'.orders = e.orders.insert pos order)
    (hp : e'.orderPos = Function.update e.orderPos order.orderId (some pos)) : e'.Indexed := by
  intro orderId p
  rw [hp, ho, Function.update_apply]
  simp only [lookup_insert_ite]
  by_cases hid : orderId = order.orderId
  · subst hid
    by_cases hpos : p = pos
    · simp [hpos]
    · rw [if_pos rfl, if_neg hpos, ← he, hn]
      simp [Ne.symm hpos]
  · rw [if_neg hid, he]
    by_cases hpos : p = pos
    · subst hpos
      simp [hfree, Ne.symm hid]
    · rw [if_neg hpos]

omit [FluidexCommon] in
/-- Storing an order in the place of one with another id. -/
theorem not_of_replaced (he : e.Indexed) {order old : Order} {pos : ℕ}
    (hold : e.orders.lookup pos = some old) (hne : old.orderId ≠ order.orderId)
    (ho : e'.orders = e.orders.insert pos order)
    (hp : e'.orderPos old.orderId = e.orderPos old.orderId) : ¬e'.Indexed := by
  intro he'
  -- The position is still recorded for the old order.
  obtain ⟨o, ho', hid⟩ := (he' old.orderId pos).1 (by rw [hp, he.orderPos_of_lookup hold])
  rw [ho, AList.lookup_insert, Option.some.injEq] at ho'
  rw [← ho'] at hid
  exact hne hid.symm

/-- A trade keeps the index exactly when its order is known or gets a free slot. -/
theorem trades_iff (he : e.Indexed) {order : Order} {pos : ℕ} {sell buy : Fr}
    {updates : List (ℕ × Fr)} (h : e.Trades order pos sell buy updates e') :
    e'.Indexed ↔ (e.orderPos order.orderId).isSome ∨ e.orders.keys.length < 2 ^ lv.orderLevels := by
  have ho := h.orders_eq
  obtain ⟨placed, ot, hplace, -, rfl⟩ := h
  cases hplace with
  | known hp =>
    have hp' : e.orderPos (order.tradeWith sell buy).orderId = some pos := hp
    exact iff_of_true (he.insert_known hp' ho rfl) (.inl (by rw [hp]; rfl))
  | new next hn hslot =>
    have hn' : e.orderPos (order.tradeWith sell buy).orderId = none := hn
    cases hslot with
    | free hlt hfree => exact iff_of_true (he.insert_free hn' hfree ho rfl) (.inr hlt)
    | @closed _ old hfull _ hold _ _ hlt =>
      have hne : old.orderId ≠ (order.tradeWith sell buy).orderId := hlt.ne
      refine iff_of_false (he.not_of_replaced hold hne ho ?_) ?_
      · exact Function.update_of_ne hlt.ne _ _
      · rw [hn, hfull]
        simp

omit [FluidexCommon] in
/-- Setting an order directly keeps the index exactly when it is a new order in a free
    slot, or it replaces the order with its id. -/
theorem setOrder_iff (he : e.Indexed) {order : Order} {pos : ℕ}
    (ho : e'.orders = e.orders.insert pos order)
    (hp : e'.orderPos = Function.update e.orderPos order.orderId (some pos)) :
    e'.Indexed ↔ (∀ o, e.orders.lookup pos = some o → o.orderId = order.orderId) ∧
      ∀ p, e.orderPos order.orderId = some p → p = pos := by
  constructor
  · refine fun he' => ⟨fun o hold => ?_, fun p hpos => ?_⟩
    · by_contra hne
      refine he.not_of_replaced hold hne ho ?_ he'
      rw [hp, Function.update_of_ne hne]
    · by_contra hne
      -- The order that had the id is still stored elsewhere.
      obtain ⟨o, hold, hid⟩ := (he _ _).1 hpos
      have hpos' := (he' order.orderId p).2 ⟨o, by rw [ho, AList.lookup_insert_ne hne, hold], hid⟩
      rw [hp, Function.update_self, Option.some.injEq] at hpos'
      exact hne hpos'.symm
  · rintro ⟨hsame, hpos⟩
    cases hold : e.orders.lookup pos with
    | none =>
      refine he.insert_free ?_ hold ho hp
      -- The id is recorded nowhere, since there is nothing at the position.
      rw [Option.eq_none_iff_forall_ne_some]
      intro p hp'
      obtain rfl := hpos p hp'
      obtain ⟨o, ho', -⟩ := (he _ _).1 hp'
      rw [hold] at ho'
      cases ho'
    | some o =>
      have hknown : e.orderPos order.orderId = some pos := by
        rw [← hsame o hold, he.orderPos_of_lookup hold]
      refine he.insert_known hknown ho ?_
      rw [hp, ← hknown, Function.update_eq_self]

end Entry.Indexed

/-! ## The index of a state -/

/-- The recorded positions and the stored orders are the same bijection, so that what
    is done to the order with an id is done to the order that has it. -/
structure GlobalState.OrdersIndexed (s : GlobalState lv) : Prop where
  bijection : ∀ a orderId pos, s.getOrderPosById a orderId = some pos ↔
    ∃ o, s.storedOrder a pos = some o ∧ o.orderId = orderId
  hasOrder_iff : ∀ a orderId, s.hasOrder a orderId ↔
    ∃ pos o, s.storedOrder a pos = some o ∧ o.orderId = orderId
  byId : ∀ a orderId o, s.getAccountOrderById a orderId = .ok o →
    o.orderId = orderId ∧ ∃ pos, s.storedOrder a pos = some o
  cancel : ∀ a orderId s', s.cancelOrder a orderId = .ok s' → ∃ pos o,
    s.storedOrder a pos = some o ∧ o.orderId = orderId ∧
      s'.storedOrder a pos = some { o with isActive := false } ∧
      ∀ b p, b ≠ a ∨ p ≠ pos → s'.storedOrder b p = s.storedOrder b p

theorem Holds.indexed_iff (h : Holds s L) : (∀ a, (L.entry a).Indexed) ↔
    ∀ a orderId pos, s.getOrderPosById a orderId = some pos ↔
      ∃ o, s.storedOrder a pos = some o ∧ o.orderId = orderId := by
  simp only [Entry.Indexed, h.getOrderPosById_entry, h.storedOrder_entry]

theorem Shows.ordersIndexed (h : Shows s L) :
    s.OrdersIndexed ↔ ∀ a, (L.entry a).Indexed := by
  refine ⟨fun hs => h.indexed_iff.2 hs.bijection, fun hL => ?_⟩
  have hbij := h.indexed_iff.1 hL
  refine ⟨hbij, fun a orderId => ?_, fun a orderId o ho => ?_, fun a orderId s' hr => ?_⟩
  · rw [h.hasOrder_iff]
    constructor
    · rintro ⟨e, pos, he, hpos⟩
      exact ⟨pos, (hbij a orderId pos).1 (by rw [h.getOrderPosById_eq he, hpos])⟩
    · rintro ⟨pos, ho⟩
      obtain ⟨e, he, hpos⟩ := h.getOrderPosById_eq_some ((hbij a orderId pos).2 ho)
      exact ⟨e, pos, he, hpos⟩
  · obtain ⟨-, hr⟩ := Exec.assert_bind_eq_ok_iff.1 ho
    obtain ⟨pos, hpos, hr⟩ := Exec.bind_eq_ok_iff.1 hr
    obtain ⟨o', ho', hid⟩ := (hbij a orderId pos).1 (Exec.unwrap_eq_ok_iff.1 hpos)
    obtain ⟨e, he, hlookup⟩ := h.storedOrder_eq_some ho'
    -- The order that is read is the one in the slot, which has the id.
    rw [h.getAccountOrderByPos_eq he, Entry.orderAt_of_some hlookup, Except.ok.injEq] at hr
    exact hr ▸ ⟨hid, pos, ho'⟩
  · obtain ⟨e, pos, o, he, hpos, ho, h'⟩ := cancelOrder_spec h hr
    have hslot := h.storedOrder_set h'.toHolds
    have hstored : s.storedOrder a pos = some o := (h.storedOrder_of_some he pos).trans ho
    -- The slot that is recorded holds the order itself.
    obtain ⟨o', ho', hid⟩ := (hbij a orderId pos).1 (by rw [h.getOrderPosById_eq he, hpos])
    obtain rfl := Option.some.inj (hstored.symm.trans ho')
    refine ⟨pos, o, hstored, hid, ?_, fun b p hne => ?_⟩
    · rw [hslot, if_pos rfl]
      exact AList.lookup_insert _
    · rw [hslot]
      split
      · next hb =>
        subst hb
        refine (AList.lookup_insert_ne (hne.resolve_left fun hc => hc rfl)).trans ?_
        rw [h.storedOrder_of_some he]
      · rfl

/-- The account has a free slot. -/
def GlobalState.HasFreeSlot (s : GlobalState lv) (accountId : ℕ) : Prop :=
  ∀ orders, s.orderStates.lookup accountId = some orders →
    orders.keys.length < lv.maxOrderNumPerUser

instance (s : GlobalState lv) (accountId : ℕ) : Decidable (s.HasFreeSlot accountId) :=
  match h : s.orderStates.lookup accountId with
  | some orders => decidable_of_iff (orders.keys.length < lv.maxOrderNumPerUser)
      ⟨fun hlt _ ho => Option.some.inj (h.symm.trans ho) ▸ hlt, fun hfree => hfree orders h⟩
  | none => .isTrue fun _ ho => by rw [h] at ho; cases ho

/-- The operations that keep the index: no slot is reused. -/
def Op.ReusesNoSlot (s : GlobalState lv) : Op → Prop
  | .fullSpotTrade _ tx _ => ∀ side ∈ tx.sides, ∀ o, s.orderOf side = .ok o →
      s.hasOrder side.accountId o.orderId ∨ s.HasFreeSlot side.accountId
  | .setAccountOrder a pos order =>
      (∀ o, s.storedOrder a pos = some o → o.orderId = order.orderId) ∧
      ∀ p, s.getOrderPosById a order.orderId = some p → p = pos
  | _ => True

instance (s : GlobalState lv) : (op : Op) → Decidable (op.ReusesNoSlot s)
  | .fullSpotTrade _ tx _ => inferInstanceAs (Decidable (∀ side ∈ tx.sides, ∀ o,
      s.orderOf side = .ok o → s.hasOrder side.accountId o.orderId ∨ s.HasFreeSlot side.accountId))
  | .setAccountOrder a pos order => inferInstanceAs (Decidable (
      (∀ o, s.storedOrder a pos = some o → o.orderId = order.orderId) ∧
        ∀ p, s.getOrderPosById a order.orderId = some p → p = pos))
  | .createNewAccount _ | .setAccountL2Addr _ _ _ | .setAccountNonce _ _ | .setTokenBalance _ _ _
  | .keyUpdate _ _ | .deposit _ _ | .transfer _ _ _ | .withdraw _ _ | .cancelOrder _ _ | .nop
  | .flushWithNop | .popAllBlocks => .isTrue trivial

/-! ## Steps -/

theorem Ledger.SameOrders.indexed {L' : Ledger lv} (h : L.SameOrders L')
    (hL : ∀ a, (L.entry a).Indexed) (a : ℕ) : (L'.entry a).Indexed :=
  (hL a).congr (h a).1 (h a).2

/-- A trade keeps the index exactly when it reuses no slot. -/
theorem fullSpotTrade_indexed_iff (h : Shows s L) (hL : ∀ a, (L.entry a).Indexed)
    {schedule : Shuffle Task} {tx : FullSpotTradeTx} {offset : Option ℤ} {rawTx : RawTx}
    (hr : s.fullSpotTrade schedule tx offset = .ok (rawTx, s')) :
    s'.OrdersIndexed ↔ (Op.fullSpotTrade schedule tx offset).ReusesNoSlot s := by
  obtain ⟨-, L', h', hother, hsides⟩ := fullSpotTrade_sides h hr
  -- The account of a side is indexed after the trade exactly when its slot is not reused.
  have hside : ∀ side ∈ tx.sides, (L'.entry side.accountId).Indexed ↔ ∀ o, s.orderOf side = .ok o →
      s.hasOrder side.accountId o.orderId ∨ s.HasFreeSlot side.accountId := by
    intro side hmem
    obtain ⟨order, pos, e, e', hT, he'⟩ := hsides side hmem
    obtain ⟨updates, htrades⟩ := hT.trades
    have he : e.Indexed := Ledger.entry_of_some hT.entry ▸ hL side.accountId
    have hhas : s.hasOrder side.accountId order.orderId ↔ (e.orderPos order.orderId).isSome := by
      rw [GlobalState.hasOrder, ← AList.lookup_isSome, h.lookup_orderIdToPos hT.entry]
    have hfree : s.HasFreeSlot side.accountId ↔ e.orders.keys.length < 2 ^ lv.orderLevels := by
      rw [GlobalState.HasFreeSlot, h.lookup_orderStates hT.entry]
      simp [Levels.maxOrderNumPerUser, Tree.maxLeafNum]
    rw [Ledger.entry_of_some he', he.trades_iff htrades, ← hhas, ← hfree]
    refine ⟨fun hor o ho => ?_, fun hall => hall order hT.orderOf⟩
    rwa [Except.ok.inj (ho.symm.trans hT.orderOf)]
  rw [h'.ordersIndexed]
  constructor
  · exact fun hL' side hmem => (hside side hmem).1 (hL' side.accountId)
  · intro hall a
    by_cases hacc : ∃ side ∈ tx.sides, a = side.accountId
    · obtain ⟨side, hmem, rfl⟩ := hacc
      exact (hside side hmem).2 (hall side hmem)
    · simp only [not_exists, not_and] at hacc
      rw [Ledger.entry, hother a hacc]
      exact hL a

/-- An operation keeps the index exactly when it reuses no slot. -/
theorem apply_indexed_iff (h : Shows s L) (hs : s.OrdersIndexed) {op : Op} {raw : Option RawTx}
    (hr : s.apply op = .ok (raw, s')) : s'.OrdersIndexed ↔ op.ReusesNoSlot s := by
  have hL := h.ordersIndexed.1 hs
  by_cases hop : op.OnOrders
  swap
  · -- The operation is not on orders, and keeps them all.
    obtain ⟨L', h', hsame⟩ := apply_sameOrders h hop hr
    refine iff_of_true (h'.ordersIndexed.2 (hsame.indexed hL)) ?_
    cases op with
    | setAccountOrder _ _ _ | fullSpotTrade _ _ _ | cancelOrder _ _ => exact absurd trivial hop
    | _ => trivial
  cases GlobalState.applied hr with
  | @setAccountOrder a pos order _ hr =>
    obtain ⟨e, t, he, -, -, h'⟩ := setAccountOrder_spec h hr
    have hindexed : e.Indexed := Ledger.entry_of_some he ▸ hL a
    rw [h'.ordersIndexed, Ledger.forall_set_iff hL, hindexed.setOrder_iff rfl rfl,
      Op.ReusesNoSlot, h.getOrderPosById_eq he, h.storedOrder_of_some he]
  | @cancelOrder a orderId _ hr =>
    obtain ⟨e, pos, order, he, -, horder, h'⟩ := cancelOrder_spec h hr
    have hindexed : e.Indexed := Ledger.entry_of_some he ▸ hL a
    rw [h'.ordersIndexed, Ledger.forall_set_iff hL]
    have hknown : e.orderPos order.orderId = some pos := hindexed.orderPos_of_lookup horder
    have hset : (e.setOrder pos { order with isActive := false }).Indexed := by
      refine hindexed.insert_known ?_ rfl rfl
      exact hknown
    exact iff_of_true hset trivial
  | fullSpotTrade hr => exact fullSpotTrade_indexed_iff h hL hr
  | createNewAccount _ | setAccountL2Addr _ | setAccountNonce _ | setTokenBalance _ | keyUpdate _
  | deposit _ | transfer _ | withdraw _ | nop | flushWithNop | popAllBlocks => exact hop.elim

theorem ordersIndexed_new (lv : Levels) : (GlobalState.new lv).OrdersIndexed :=
  (shows_new lv).ordersIndexed.2 fun _ => .create lv _

namespace Node

variable {n n' : Node lv} {op : Op}

theorem step_indexed_iff (h : ∃ L, Shows n.state L) (hs : n.state.OrdersIndexed)
    (hst : n.step op = .ok n') : n'.state.OrdersIndexed ↔ op.ReusesNoSlot n.state := by
  obtain ⟨L, h⟩ := h
  obtain ⟨raw, hr⟩ := step_state hst
  exact apply_indexed_iff h hs hr

/-- The orders are indexed in every state reached by operations that reuse no slot. -/
theorem ordersIndexed_of_reusesNoSlot {nTx persistEveryNBlock : ℕ} {blockOffset : Option ℕ}
    (hn : Exec.Reachable Node.step (fun n op => op.ReusesNoSlot n.state)
      (Node.new lv nTx blockOffset persistEveryNBlock) n) : n.state.OrdersIndexed := by
  suffices hinv : (∃ L, Shows n.state L) ∧ n.state.OrdersIndexed from hinv.2
  refine hn.invariant ⟨⟨_, shows_new lv⟩, ordersIndexed_new lv⟩ ?_
  rintro m op m' - ⟨h, hs⟩ hop hst
  exact ⟨exists_shows_step h hst, (step_indexed_iff h hs hst).2 hop⟩

end Node

/-- The orders are indexed all along a run exactly when none of its operations reuses a slot. -/
theorem ordersIndexed_iff {nTx persistEveryNBlock : ℕ} {blockOffset : Option ℕ} {ops : List Op}
    {n : Node lv}
    (hrun : Exec.run Node.step (Node.new lv nTx blockOffset persistEveryNBlock) ops = .ok n) :
    (∀ k m, Exec.run Node.step (Node.new lv nTx blockOffset persistEveryNBlock) (ops.take k) = .ok m →
        m.state.OrdersIndexed) ↔
      ∀ k m op, Exec.run Node.step (Node.new lv nTx blockOffset persistEveryNBlock) (ops.take k) =
        .ok m → ops[k]? = some op → op.ReusesNoSlot m.state := by
  have hshows : ∀ (n : Node lv) op n', (∃ L, Shows n.state L) → n.step op = .ok n' →
      ∃ L, Shows n'.state L := fun _ _ _ => Node.exists_shows_step
  have hstep : ∀ (n : Node lv) op n', (∃ L, Shows n.state L) → n.state.OrdersIndexed →
      n.step op = .ok n' → (n'.state.OrdersIndexed ↔ op.ReusesNoSlot n.state) :=
    fun _ _ _ => Node.step_indexed_iff
  exact Exec.forall_take_iff hshows hstep ⟨_, shows_new lv⟩ (ordersIndexed_new lv) hrun

end OrderIndex

attribute [local instance] FluidexCommon.sample in
theorem ordersIndexed_iff_authorisedOps :
    ∃ n, Exec.run Node.step (Node.new Levels.small 2 none 9) authorisedOps = .ok n ∧
      ((∀ k m, Exec.run Node.step (Node.new Levels.small 2 none 9) (authorisedOps.take k) = .ok m →
          m.state.OrdersIndexed) ↔
        ∀ k m op, Exec.run Node.step (Node.new Levels.small 2 none 9) (authorisedOps.take k) =
          .ok m → authorisedOps[k]? = some op → op.ReusesNoSlot m.state) := by
  obtain ⟨n, hn⟩ := Exec.exists_eq_ok
    (Exec.run Node.step (Node.new Levels.small 2 none 9) authorisedOps) (by decide +kernel)
  exact ⟨n, hn, ordersIndexed_iff hn⟩

/-- There are two slots: that of the cancelled order `3` is taken by the order `6`. -/
def reusedOps : List Op :=
  authorisedOps ++
    [.fullSpotTrade .id ⟨⟨0, 1, 1, 0, 1, 1, 5, 4⟩, some { tenForTwelve with orderId := 5 }, none⟩ none,
      .fullSpotTrade .id ⟨⟨0, 1, 1, 0, 1, 1, 6, 4⟩, some { tenForTwelve with orderId := 6 }, none⟩ none]

attribute [local instance] FluidexCommon.sample in
/-- The order `3` is no longer stored, but it is found, in the place of the order `6`. -/
theorem not_ordersIndexed_reusedOps :
    ∃ n o, Exec.run Node.step (Node.new Levels.small 2 none 9) reusedOps = .ok n ∧
      n.state.hasOrder 0 3 ∧ n.state.getAccountOrderById 0 3 = .ok o ∧ o.orderId = 6 ∧
      ¬n.state.OrdersIndexed := by
  obtain ⟨⟨n, o⟩, hn⟩ := Exec.exists_eq_ok (do
    let n ← Exec.run Node.step (Node.new Levels.small 2 none 9) reusedOps
    let o ← n.state.getAccountOrderById 0 3
    assert (n.state.hasOrder 0 3 ∧ o.orderId = 6) "orders"
    pure (n, o)) (by decide +kernel)
  simp only [Exec.bind_eq_ok_iff, Exec.assert_eq_ok_iff, Exec.pure_eq_ok_iff, Prod.mk.injEq] at hn
  obtain ⟨n, hn, o, ho, _, ⟨hhas, hid⟩, rfl, rfl⟩ := hn
  refine ⟨n, o, hn, hhas, ho, hid, fun hs => ?_⟩
  have hbyId := (hs.byId 0 3 o ho).1
  rw [hid] at hbyId
  cases hbyId

end Rollup
