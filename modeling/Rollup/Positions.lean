import Rollup.OrderIndex

/-!
# Orders by position

The position of an order is found by its id (`getOrderPosById`), and its id by its position
(`getOrderIdByPos`). The first lookup finds every order that is stored, even in a slot that has
been reused (`Entry.Recorded`). But the second one returns the account id of the order instead
of its id: it is the inverse of the first one only where both are the same
(`getOrderIdByPos_iff`).
-/

namespace Rollup

section Positions

variable [FluidexCommon] {lv : Levels} {s s' : GlobalState lv} {L : Ledger lv} {e e' : Entry lv}

/-- The position of every order is recorded for its id. -/
def Entry.Recorded (e : Entry lv) : Prop :=
  ∀ pos o, e.orders.lookup pos = some o → e.orderPos o.orderId = some pos

namespace Entry.Recorded

theorem create (lv : Levels) (n : ℕ) : (Entry.create lv n).Recorded := fun _ _ h => by cases h

omit [FluidexCommon] in
/-- An order is stored at the position recorded for it, which is that of no other order. -/
theorem insert (he : e.Recorded) {pos : ℕ} {order : Order}
    (hself : e'.orderPos order.orderId = some pos)
    (hother : ∀ orderId, orderId ≠ order.orderId → e'.orderPos orderId = e.orderPos orderId)
    (hown : ∀ p, e.orderPos order.orderId = some p → p = pos)
    (ho : e'.orders = e.orders.insert pos order) : e'.Recorded := by
  intro p o hp
  rw [ho, lookup_insert_ite] at hp
  split at hp
  · next hpos =>
    obtain rfl := Option.some.inj hp
    rw [hpos, hself]
  · next hpos =>
    have hrec := he p o hp
    rw [hother o.orderId fun hid => hpos (hown p (hid ▸ hrec)), hrec]

theorem trades (he : e.Recorded) {order : Order} {pos : ℕ} {sell buy : Fr}
    {updates : List (ℕ × Fr)} (h : e.Trades order pos sell buy updates e') : e'.Recorded := by
  have hself : e'.orderPos (order.tradeWith sell buy).orderId = some pos := h.orderPos_self
  refine he.insert hself (fun orderId => h.orderPos_of_ne) (fun p hp => ?_) h.orders_eq
  obtain ⟨placed, ot, hplace, -, -⟩ := h
  cases hplace with
  | known hpos => exact Option.some.inj (hp.symm.trans hpos)
  | new next hn hslot => cases hn.symm.trans hp

omit [FluidexCommon] in
theorem cancel (he : e.Recorded) {pos : ℕ} {order : Order} (ho : e.orders.lookup pos = some order) :
    (e.setOrder pos { order with isActive := false }).Recorded := by
  have hrec : e.orderPos { order with isActive := false }.orderId = some pos := he pos order ho
  exact he.insert hrec (fun _ _ => rfl) (fun p hp => Option.some.inj (hp.symm.trans hrec)) rfl

end Entry.Recorded

/-- An order that is set directly keeps its position. -/
def Op.KeepsPositions (s : GlobalState lv) : Op → Prop
  | .setAccountOrder a pos order => ∀ p, s.getOrderPosById a order.orderId = some p → p = pos
  | _ => True

instance (s : GlobalState lv) : (op : Op) → Decidable (op.KeepsPositions s)
  | .setAccountOrder a pos order => inferInstanceAs (Decidable
      (∀ p, s.getOrderPosById a order.orderId = some p → p = pos))
  | .createNewAccount _ | .setAccountL2Addr _ _ _ | .setAccountNonce _ _ | .setTokenBalance _ _ _
  | .keyUpdate _ _ | .deposit _ _ | .transfer _ _ _ | .withdraw _ _ | .fullSpotTrade _ _ _
  | .cancelOrder _ _ | .nop | .flushWithNop | .popAllBlocks => .isTrue trivial

theorem apply_recorded (h : Shows s L) (hL : ∀ a, (L.entry a).Recorded) {op : Op}
    (hop : op.KeepsPositions s) {raw : Option RawTx} (hr : s.apply op = .ok (raw, s')) :
    ∃ L', Shows s' L' ∧ ∀ a, (L'.entry a).Recorded := by
  by_cases hon : op.OnOrders
  swap
  · obtain ⟨L', h', hsame⟩ := apply_sameOrders h hon hr
    refine ⟨L', h', fun a pos o ho => ?_⟩
    rw [(hsame a).1] at ho
    rw [(hsame a).2, hL a pos o ho]
  cases GlobalState.applied hr with
  | @setAccountOrder a pos order _ hr =>
    obtain ⟨e, t, he, -, -, h'⟩ := setAccountOrder_spec h hr
    have hrec : e.Recorded := Ledger.entry_of_some he ▸ hL a
    refine ⟨_, h', Ledger.forall_set hL ?_ a⟩
    refine hrec.insert (Function.update_self _ _ _) (fun _ hne => Function.update_of_ne hne _ _)
      -- The id of the order is recorded nowhere else.
      (fun p hp => hop p ?_) rfl
    rw [h.getOrderPosById_eq he, hp]
  | fullSpotTrade hr =>
    obtain ⟨T, e1', e2', hT, h1, h2, h', -⟩ := fullSpotTrade_spec h hr
    have he1 := Ledger.entry_of_some hT.entry1 ▸ hL _
    have he2 := Ledger.entry_of_some hT.entry2 ▸ hL _
    exact ⟨_, h', Ledger.forall_set (Ledger.forall_set hL (he1.trades h1) _) (he2.trades h2) _⟩
  | cancelOrder hr =>
    obtain ⟨e, pos, order, he, -, ho, h'⟩ := cancelOrder_spec h hr
    have hrec := Ledger.entry_of_some he ▸ hL _
    exact ⟨_, h', Ledger.forall_set hL (hrec.cancel ho) _⟩
  | createNewAccount _ | setAccountL2Addr _ | setAccountNonce _ | setTokenBalance _ | keyUpdate _
  | deposit _ | transfer _ | withdraw _ | nop | flushWithNop | popAllBlocks => exact hon.elim

/-- The positions are recorded in every state reached by such operations. -/
theorem exists_recorded {n : Node lv} {nTx persistEveryNBlock : ℕ} {blockOffset : Option ℕ}
    (hn : Exec.Reachable Node.step (fun n op => op.KeepsPositions n.state)
      (Node.new lv nTx blockOffset persistEveryNBlock) n) :
    ∃ L, Shows n.state L ∧ ∀ a, (L.entry a).Recorded := by
  refine hn.invariant ⟨_, shows_new lv, fun _ => .create lv _⟩ ?_
  rintro m op m' - ⟨L, h, hL⟩ hop hst
  obtain ⟨raw, hr⟩ := Node.step_state hst
  exact apply_recorded h hL hop hr

/-- The lookups by id and by position are inverse of each other at the position. -/
def GlobalState.InverseAt (s : GlobalState lv) (accountId pos : ℕ) : Prop :=
  match s.storedOrder accountId pos with
  | some o => s.getOrderIdByPos accountId pos = .ok (some o.orderId) ∧
      s.getOrderPosById accountId o.orderId = some pos
  | none => s.getOrderIdByPos accountId pos = .ok none

omit [FluidexCommon] in
/-- What is returned for a position is the account id of the order there. -/
theorem Holds.getOrderIdByPos_eq {a : ℕ} (h : Holds s L) (he : L a = some e) (pos : ℕ) :
    s.getOrderIdByPos a pos = .ok ((e.orders.lookup pos).map Order.accountId) := by
  rw [GlobalState.getOrderIdByPos, unwrap, h.lookup_orderStates he]
  rfl

/-- In every state reached by transactions, the lookups of an account that exists are inverse of
    each other at the positions without an order, and at those of the orders whose ids are
    the account ids they have. -/
theorem getOrderIdByPos_iff {n : Node lv} {nTx persistEveryNBlock : ℕ} {blockOffset : Option ℕ}
    (hn : Exec.Reachable Node.step (fun n op => op.KeepsPositions n.state)
      (Node.new lv nTx blockOffset persistEveryNBlock) n)
    {a : ℕ} (ha : a ∈ n.state.accountStates) (pos : ℕ) :
    n.state.InverseAt a pos ↔
      ∀ o, n.state.storedOrder a pos = some o → o.accountId = o.orderId := by
  obtain ⟨L, h, hL⟩ := exists_recorded hn
  obtain ⟨e, he⟩ := Option.isSome_iff_exists.1 (h.mem_accountStates.1 ha)
  have hrec : e.Recorded := Ledger.entry_of_some he ▸ hL a
  have hid := h.getOrderIdByPos_eq he pos
  rw [GlobalState.InverseAt, h.storedOrder_of_some he, hid]
  cases ho : e.orders.lookup pos with
  | none => exact iff_of_true rfl nofun
  | some o =>
    have hpos : n.state.getOrderPosById a o.orderId = some pos := by
      rw [h.getOrderPosById_eq he, hrec pos o ho]
    simp only [Option.map_some, Except.ok.injEq, Option.some.injEq, hpos, and_true, forall_eq']

end Positions

attribute [local instance] FluidexCommon.sample in
theorem getOrderIdByPos_iff_reusedOps :
    ∃ n, Exec.run Node.step (Node.new Levels.small 2 none 9) reusedOps = .ok n ∧
      (n.state.InverseAt 0 0 ↔ ∀ o, n.state.storedOrder 0 0 = some o → o.accountId = o.orderId) := by
  obtain ⟨n, hn⟩ := Exec.exists_eq_ok (do
    let n ← Exec.run (Exec.guarded Node.step .unwrap fun n op => op.KeepsPositions n.state)
      (Node.new Levels.small 2 none 9) reusedOps
    assert (0 ∈ n.state.accountStates) "account"
    pure n) (by decide +kernel)
  simp only [Exec.bind_eq_ok_iff, Exec.assert_eq_ok_iff, Exec.pure_eq_ok_iff] at hn
  obtain ⟨n, hn, _, ha, rfl⟩ := hn
  obtain ⟨hreach, hrun⟩ := Exec.Reachable.init.of_guarded hn
  exact ⟨n, hrun, getOrderIdByPos_iff hreach ha 0⟩

attribute [local instance] FluidexCommon.sample in
/-- The order `6` is stored at the position `0` of the account `0`: `0` is returned for it, which
    is not the id of one of its orders. -/
theorem not_inverseAt_reusedOps :
    ∃ n o, Exec.run Node.step (Node.new Levels.small 2 none 9) reusedOps = .ok n ∧
      n.state.storedOrder 0 0 = some o ∧ o.orderId = 6 ∧ n.state.getOrderIdByPos 0 0 = .ok (some 0) ∧
      n.state.getOrderPosById 0 0 = none ∧ ¬n.state.InverseAt 0 0 := by
  obtain ⟨⟨n, o⟩, hn⟩ := Exec.exists_eq_ok (do
    let n ← Exec.run Node.step (Node.new Levels.small 2 none 9) reusedOps
    let o ← unwrap (n.state.storedOrder 0 0)
    let id ← n.state.getOrderIdByPos 0 0
    assert (o.orderId = 6 ∧ id = some 0 ∧ n.state.getOrderPosById 0 0 = none) "orders"
    pure (n, o)) (by decide +kernel)
  simp only [Exec.bind_eq_ok_iff, Exec.assert_eq_ok_iff, Exec.unwrap_eq_ok_iff, Exec.pure_eq_ok_iff,
    Prod.mk.injEq] at hn
  obtain ⟨n, hn, o, ho, id, hid, _, ⟨hsix, rfl, hnone⟩, rfl, rfl⟩ := hn
  refine ⟨n, o, hn, ho, hsix, hid, hnone, fun hinv => ?_⟩
  rw [GlobalState.InverseAt, ho, hid] at hinv
  cases Option.some.inj (Except.ok.inj hinv.1) ▸ hsix

end Rollup
