import Rollup.Orders

/-!
# What is emitted

A raw transaction says what the operation emitting it was given, and what it found
in the ledger (`Op.Emits`). Every raw transaction of a run is emitted by one of its
steps, from a reachable state (`Node.exists_emits`).

The ids of the code are `u32`s, those of the model are not bounded: the orders that
are stored have `u32`s for ids if those of the operations are (`Op.Typed`).
-/

namespace Rollup

section Emitted

variable [FluidexCommon] {lv : Levels}

/-- A raw transaction of this type, with this offset. -/
def RawTx.IsOf (raw : RawTx) (txType : TxType) (offset : Option ℤ) : Prop :=
  raw.txType = txType ∧ raw.offset = offset

/-- What an operation emits from a state showing the ledger `L`. -/
inductive Op.Emits (s : GlobalState lv) (L : Ledger lv) : Op → RawTx → Prop
  | keyUpdate {offset : Option ℤ} {tx : UpdateKeyTx} {raw : RawTx} : raw.IsOf .deposit offset →
      tx.accountId < 2 ^ lv.accountLevels →
      raw.payload = keyUpdatePayload tx 0 (L.entry tx.accountId).state 0 →
      Emits s L (.keyUpdate tx offset) raw
  | deposit {offset : Option ℤ} {tx : DepositTx} {raw : RawTx} : raw.IsOf .deposit offset →
      tx.accountId < 2 ^ lv.accountLevels →
      raw.payload = depositPayload tx (L.entry tx.accountId).state
        ((L.entry tx.accountId).balance tx.tokenId) →
      Emits s L (.deposit tx offset) raw
  | transfer {offset : Option ℤ} {schedule : Shuffle Task} {tx : TransferTx} {raw : RawTx} :
      raw.IsOf .transfer offset → tx.fromId < 2 ^ lv.accountLevels →
      tx.toId < 2 ^ lv.accountLevels →
      raw.payload = transferPayload tx (L.entry tx.fromId).state (L.entry tx.toId).state
        ((L.entry tx.fromId).balance tx.tokenId)
        ((L.entry tx.toId).balance tx.tokenId + tx.amount.toFr) →
      Emits s L (.transfer schedule tx offset) raw
  | withdraw {offset : Option ℤ} {tx : WithdrawTx} {raw : RawTx} : raw.IsOf .withdraw offset →
      tx.accountId < 2 ^ lv.accountLevels →
      raw.payload = withdrawPayload tx (L.entry tx.accountId).state
        ((L.entry tx.accountId).balance tx.tokenId) →
      Emits s L (.withdraw tx offset) raw
  | fullSpotTrade {offset : Option ℤ} {schedule : Shuffle Task} {tx : FullSpotTradeTx}
      {raw : RawTx} {T : Trade lv} {s' : GlobalState lv} {e1' e2' : Entry lv} :
      raw.IsOf .spotTrade offset → T.Accepted s L tx →
      T.e1.Trades T.order1 T.pos1 tx.trade.amount1to2 tx.trade.amount2to1 (T.updates1 tx.trade) e1' →
      T.e2.Trades T.order2 T.pos2 tx.trade.amount2to1 tx.trade.amount1to2 (T.updates2 tx.trade) e2' →
      T.Describes tx.trade s s' e1' e2' raw → Emits s L (.fullSpotTrade schedule tx offset) raw
  | nop {op : Op} : op = .nop ∨ op = .flushWithNop → Emits s L op s.nopTx

variable {s s' : GlobalState lv} {L : Ledger lv}

/-! ## Emitting -/

theorem transfer_raw {schedule : Shuffle Task} {tx : TransferTx} {offset : Option ℤ}
    {rawTx : RawTx} (hr : s.transfer schedule tx offset = .ok (rawTx, s')) :
    rawTx.IsOf .transfer offset ∧ rawTx.rootAfter = s'.root := by
  simp only [GlobalState.transfer, Exec.bind_eq_ok_iff, Exec.pure_eq_ok_iff, Prod.mk.injEq] at hr
  obtain ⟨_, -, _, -, _, -, _, -, _, -, _, -, rfl, rfl⟩ := hr
  exact ⟨⟨rfl, rfl⟩, rfl⟩

theorem fullSpotTrade_raw {schedule : Shuffle Task} {tx : FullSpotTradeTx} {offset : Option ℤ}
    {rawTx : RawTx} (hr : s.fullSpotTrade schedule tx offset = .ok (rawTx, s')) :
    rawTx.IsOf .spotTrade offset ∧ rawTx.rootAfter = s'.root := by
  rw [GlobalState.fullSpotTrade] at hr
  -- The checks, the placed orders, then everything up to the raw transaction.
  iterate 3 obtain ⟨_, -, hr⟩ := Exec.bind_eq_ok_iff.1 hr
  obtain ⟨⟨⟨placed1, placed2⟩, s₁⟩, -, hr⟩ := Exec.bind_eq_ok_iff.1 hr
  iterate 13 obtain ⟨_, -, hr⟩ := Exec.bind_eq_ok_iff.1 hr
  obtain ⟨rfl, rfl⟩ := Prod.mk.inj (Except.ok.inj hr)
  exact ⟨⟨rfl, rfl⟩, rfl⟩

theorem apply_emits (h : Shows s L) {op : Op} {raw : RawTx}
    (hr : s.apply op = .ok (some raw, s')) : op.Emits s L raw := by
  generalize hraw : some raw = r at hr
  -- a deposit or a key update that is refused emits nothing
  cases GlobalState.applied hr with
  | createNewAccount _ | setAccountL2Addr _ | setAccountNonce _ | setAccountOrder _
  | setTokenBalance _ | cancelOrder _ | flushWithNop | popAllBlocks => cases hraw
  | keyUpdate hr =>
    rcases keyUpdate_spec h hr with ⟨hnone, -⟩ | ⟨-, t, -, h', rfl⟩
    · rw [hnone] at hraw
      cases hraw
    · obtain rfl := Option.some.inj hraw
      exact .keyUpdate ⟨rfl, rfl⟩ (h'.lt_of_some _ _ (L.set_self _ _)) rfl
  | deposit hr =>
    rcases deposit_spec h hr with ⟨hnone, -⟩ | ⟨-, t, -, h', rfl⟩
    · rw [hnone] at hraw
      cases hraw
    · obtain rfl := Option.some.inj hraw
      exact .deposit ⟨rfl, rfl⟩ (h'.lt_of_some _ _ (L.set_self _ _)) rfl
  | transfer hr =>
    obtain rfl := Option.some.inj hraw
    obtain ⟨⟨⟨e, he, -⟩, -, ⟨f, hf⟩⟩, -, s₁, -, hdesc⟩ := transfer_spec h hr
    exact .transfer (transfer_raw hr).1 (h.lt_of_some _ _ he) (h.lt_of_some _ _ hf) hdesc.payload
  | withdraw hr =>
    obtain rfl := Option.some.inj hraw
    obtain ⟨t, -, h', rfl⟩ := withdraw_spec h hr
    exact .withdraw ⟨rfl, rfl⟩ (h'.lt_of_some _ _ (L.set_self _ _)) rfl
  | fullSpotTrade hr =>
    obtain rfl := Option.some.inj hraw
    obtain ⟨T, e1', e2', hT, h1, h2, -, hdesc⟩ := fullSpotTrade_spec h hr
    exact .fullSpotTrade (fullSpotTrade_raw hr).1 hT h1 h2 hdesc
  | nop =>
    obtain rfl := Option.some.inj hraw
    exact .nop (.inl rfl)

namespace Node

variable {n n' : Node lv}

/-- What a step adds is what its operation emits. -/
theorem step_emits (h : Shows n.state L) {op : Op} {raw : RawTx} (hst : n.step op = .ok n')
    (hraw : raw ∈ n'.emitted) : raw ∈ n.emitted ∨ op.Emits n.state L raw := by
  cases step_stepped hst with
  | flush _ =>
    rcases List.mem_append.1 hraw with hold | hnew
    · exact .inl hold
    · exact .inr (List.eq_of_mem_replicate hnew ▸ .nop (.inr rfl))
  | pop _ => exact .inl hraw
  | apply hr =>
    rw [emit_emitted] at hraw
    rcases List.mem_append.1 hraw with hold | hnew
    · exact .inl hold
    · exact .inr (apply_emits h (Option.mem_toList.1 hnew ▸ hr))

variable {allowed : Node lv → Op → Prop} {nTx persistEveryNBlock : ℕ} {blockOffset : Option ℕ}

/-- Whatever has been emitted was emitted by an operation, from a reachable state. -/
theorem exists_emits
    (hn : Exec.Reachable Node.step allowed (Node.new lv nTx blockOffset persistEveryNBlock) n)
    {raw : RawTx} (hraw : raw ∈ n.emitted) : ∃ m op L,
      Exec.Reachable Node.step allowed (Node.new lv nTx blockOffset persistEveryNBlock) m ∧
        allowed m op ∧ Shows m.state L ∧ op.Emits m.state L raw := by
  induction hn with
  | init => cases hraw
  | @step m m' op hm hop hst ih =>
    obtain ⟨L, h, -⟩ := exists_committed hm
    rcases step_emits h hst hraw with hold | hnew
    · exact ih hold
    · exact ⟨m, op, L, hm, hop, h, hnew⟩

end Node

/-! ## Positions and ids -/

/-- The recorded positions are in the order tree. -/
def Entry.Placed (e : Entry lv) : Prop :=
  ∀ orderId pos, e.orderPos orderId = some pos → pos < 2 ^ lv.orderLevels

namespace Entry

variable {e e' : Entry lv}

theorem Placed.create (lv : Levels) (n : ℕ) : (Entry.create lv n).Placed := fun _ _ h => by cases h

omit [FluidexCommon] in
theorem Placed.place_lt (he : e.Placed) {orderId pos : ℕ} (h : e.Place orderId pos e') :
    pos < 2 ^ lv.orderLevels := by
  cases h with
  | known hpos => exact he _ _ hpos
  | new _ _ hslot =>
    cases hslot with
    | free hlt _ => exact hlt
    | closed _ hlt _ _ _ _ => exact hlt

theorem Placed.change (he : e.Placed) {op : Op} (h : e.Change op e') : e'.Placed := by
  intro orderId pos hp
  cases h with
  | l2Addr _ _ | nonce _ | setBalance _ _ | putBalances _ | cancel _ _ => exact he orderId pos hp
  | @setOrder pos' order t hlt _ =>
    change Function.update e.orderPos order.orderId (some pos') orderId = some pos at hp
    rw [Function.update_apply] at hp
    split at hp
    · exact Option.some.inj hp ▸ hlt
    · exact he orderId pos hp
  | @trade order pos' sell buy updates _ _ htrade =>
    rcases eq_or_ne orderId order.orderId with rfl | hne
    · obtain ⟨placed, ot, hplace, -, rfl⟩ := htrade
      obtain rfl := Option.some.inj (hplace.orderPos_self.symm.trans hp)
      exact he.place_lt hplace
    · exact he orderId pos (by rwa [← htrade.orderPos_of_ne hne])

end Entry

/-- The id of the order is a `u32`. -/
def Order.Typed (o : Order) : Prop := o.orderId < 2 ^ 32

instance (o : Order) : Decidable o.Typed := inferInstanceAs (Decidable (_ < _))

/-- The ids of the orders given to the operation are `u32`s. -/
def Op.Typed : Op → Prop
  | .setAccountOrder _ _ order => order.Typed
  | .fullSpotTrade _ tx _ => (∀ o ∈ tx.makerOrder, o.Typed) ∧ ∀ o ∈ tx.takerOrder, o.Typed
  | _ => True

instance (op : Op) : Decidable op.Typed :=
  match op with
  | .setAccountOrder _ _ order => inferInstanceAs (Decidable order.Typed)
  | .fullSpotTrade _ _ _ => inferInstanceAs (Decidable (_ ∧ _))
  | .createNewAccount _ | .setAccountL2Addr _ _ _ | .setAccountNonce _ _ | .setTokenBalance _ _ _
  | .keyUpdate _ _ | .deposit _ _ | .transfer _ _ _ | .withdraw _ _ | .cancelOrder _ _ | .nop
  | .flushWithNop | .popAllBlocks => .isTrue trivial

/-- The ids of the stored orders are `u32`s. -/
def GlobalState.OrdersTyped (s : GlobalState lv) : Prop :=
  ∀ a pos o, s.storedOrder a pos = some o → o.Typed

namespace GlobalState.OrdersTyped

variable (hs : s.OrdersTyped)
include hs

omit [FluidexCommon] in
theorem takes (h : Holds s L) {supplied : Option Order} {a orderId : ℕ} {order : Order}
    (hsup : ∀ o ∈ supplied, o.Typed) (ht : L.Takes supplied a orderId order) : order.Typed := by
  cases supplied with
  | some o => exact ht.1 ▸ hsup o rfl
  | none =>
    obtain ⟨e, pos, he, -, rfl⟩ := ht
    rw [Entry.orderAt]
    cases ho : e.orders.lookup pos with
    | none => exact Nat.two_pow_pos 32
    | some o => exact hs a pos o (by rw [h.storedOrder_of_some he, ho])

theorem step (h : Shows s L) {op : Op} (hop : op.Typed) {raw : Option RawTx}
    (hr : s.apply op = .ok (raw, s')) : s'.OrdersTyped := by
  intro a pos o ho
  cases apply_slot h hr a pos with
  | kept hk => exact hs a pos o (hk ▸ ho)
  | cancelled _ _ hold hnew =>
    obtain rfl := Option.some.inj (hnew.symm.trans ho)
    have htyped := hs a pos _ hold
    exact htyped
  | set hset hnew =>
    subst hset
    exact Option.some.inj (hnew.symm.trans ho) ▸ hop
  | @traded schedule tx offset side order htrade hmem _ hof hnew _ =>
    subst htrade
    obtain rfl := Option.some.inj (hnew.symm.trans ho)
    have hsup : ∀ o ∈ side.supplied, o.Typed := by
      simp only [FullSpotTradeTx.sides, List.mem_cons, List.not_mem_nil, or_false] at hmem
      rcases hmem with rfl | rfl
      · exact hop.1
      · exact hop.2
    have htyped : order.Typed := hs.takes h.toHolds hsup (takeOrder_spec h hof)
    exact htyped

end GlobalState.OrdersTyped

namespace Node

variable {n : Node lv} {allowed : Node lv → Op → Prop} {nTx persistEveryNBlock : ℕ}
  {blockOffset : Option ℕ}

theorem ordersTyped (hallowed : ∀ m op, allowed m op → op.Typed)
    (hn : Exec.Reachable Node.step allowed (Node.new lv nTx blockOffset persistEveryNBlock) n) :
    n.state.OrdersTyped := by
  refine hn.invariant (fun _ _ _ h => by cases h) fun m op m' hm hs hop hst => ?_
  obtain ⟨L, h, -⟩ := exists_committed hm
  obtain ⟨raw, hr⟩ := step_state hst
  exact hs.step h (hallowed m op hop) hr

end Node

end Emitted

end Rollup
