import Rollup.Timing

/-!
# Resuming

A loop that is started again with the state of a snapshot receives the messages after the
offset of the snapshot. Some of them may be in its state: those on orders that were received
between the last transaction of the block and the timeout that ended it. They are *settled*:
handling them again changes nothing (`replay`). From there on the loop and the one that has
not been stopped do the same (`resume`), as long as what they receive has only one outcome
(`Received.Alike`): the two tasks of a transfer from an account to itself race.
-/

namespace Rollup

section Resuming

variable [FluidexCommon] {lv : Levels}

open Exec (Related)

/-! ## Settled messages -/

/-- The order, closed. -/
def Order.cancelled (order : Order) : Order := { order with isActive := false }

namespace GlobalState

variable {s s' : GlobalState lv} {a orderId : ℕ}

/-- The order is stored and has been cancelled. -/
def Cancelled (s : GlobalState lv) (a orderId : ℕ) : Prop := ∃ pos orders order,
  s.getOrderPosById a orderId = some pos ∧ s.orderStates.lookup a = some orders ∧
    orders.lookup pos = some order ∧ order.isActive = false

omit [FluidexCommon] in
/-- What cancelling an order does to the state. -/
theorem cancelOrder_eq_ok (hr : s.cancelOrder a orderId = .ok s') : ∃ pos orders order,
    s.getOrderPosById a orderId = some pos ∧ s.orderStates.lookup a = some orders ∧
      orders.lookup pos = some order ∧
      s' = { s with orderStates := s.orderStates.insert a (orders.insert pos order.cancelled) } := by
  simp only [cancelOrder, updateOrderState, Exec.bind_eq_ok_iff, Exec.unwrap_eq_ok_iff,
    Exec.pure_eq_ok_iff] at hr
  obtain ⟨pos, hpos, orders, horders, order, horder, _, horders', rfl⟩ := hr
  obtain rfl := Option.some.inj (horders.symm.trans horders')
  exact ⟨pos, orders, order, hpos, horders, horder, rfl⟩

omit [FluidexCommon] in
/-- Cancelling an order again changes nothing. -/
theorem Cancelled.cancelOrder (h : s.Cancelled a orderId) :
    ∃ s', s.cancelOrder a orderId = .ok s' ∧ s'.Same s := by
  obtain ⟨pos, orders, order, hpos, horders, horder, hactive⟩ := h
  have heq : order.cancelled = order := by rw [Order.cancelled, ← hactive]
  refine ⟨{ s with orderStates := s.orderStates.insert a (orders.insert pos order.cancelled) }, ?_,
    ?_⟩
  · simp only [GlobalState.cancelOrder, updateOrderState, hpos, horders, horder, unwrap,
      Exec.unwrap_some, Exec.ok_bind]
    rfl
  · rw [heq]
    exact { GlobalState.Same.refl s with
      orderStates := Maps.SameNested.insert_self horders (Maps.Same.insert_self horder) }

omit [FluidexCommon] in
/-- After the call, the order is stored and closed. -/
theorem cancelOrder_cancelled (hr : s.cancelOrder a orderId = .ok s') : s'.Cancelled a orderId := by
  obtain ⟨pos, orders, order, hpos, -, -, rfl⟩ := cancelOrder_eq_ok hr
  exact ⟨pos, _, order.cancelled, hpos, AList.lookup_insert _, AList.lookup_insert _, rfl⟩

omit [FluidexCommon] in
/-- An order stays cancelled when orders are cancelled. -/
theorem Cancelled.of_cancelOrder {a' orderId' : ℕ} (h : s.Cancelled a' orderId')
    (hr : s.cancelOrder a orderId = .ok s') : s'.Cancelled a' orderId' := by
  obtain ⟨pos', orders', order', hpos', horders', horder', hactive⟩ := h
  obtain ⟨pos, orders, order, hpos, horders, horder, rfl⟩ := cancelOrder_eq_ok hr
  rcases eq_or_ne a' a with rfl | hne
  · obtain rfl := Option.some.inj (horders.symm.trans horders')
    rcases eq_or_ne pos' pos with rfl | hpne
    · exact ⟨pos', _, order.cancelled, hpos', AList.lookup_insert _, AList.lookup_insert _, rfl⟩
    · exact ⟨pos', _, order', hpos', AList.lookup_insert _,
        (AList.lookup_insert_ne hpne).trans horder', hactive⟩
  · exact ⟨pos', orders', order', hpos', (AList.lookup_insert_ne hne).trans horders', horder',
      hactive⟩

end GlobalState

variable [RustDecimal] [DecimalExt]

/-- The message on an order has nothing left to do. -/
def OrderMessage.Settled (message : OrderMessage) (s : GlobalState lv) : Prop :=
  let order := message.order
  message.event = .finish →
    DecimalExt.isZero order.finishedBase = DecimalExt.isZero order.finishedQuote ∧
    if DecimalExt.isZero order.finishedBase = true then ¬s.hasOrder order.user (asU32 order.id)
    else s.Cancelled order.user (asU32 order.id)

namespace Received

/-- The message is on an order, and has nothing left to do. -/
def Settled (s : GlobalState lv) : Received → Prop
  | .msg (.order message) _ => message.message.Settled s
  | _ => False

/-- The offset of what is received: none while waiting in vain. -/
def offset : Received → Option ℤ
  | .msg message _ => message.offset
  | .timeout => none

end Received

/-- The messages with an offset above `k`. -/
def exceeding (k : ℤ) (rs : List Received) : List Received :=
  (messages rs).filter fun received => received.offset.any (k < ·)

/-- The messages have offsets, each of them above the ones before. -/
structure Increasing (rs : List Received) : Prop where
  isSome : ∀ received ∈ messages rs, received.offset.isSome
  pairwise : (messages rs).Pairwise fun r r' => ∀ k ∈ r.offset, ∀ k' ∈ r'.offset, k < k'

/-- The messages after the one with this offset have nothing left to do. -/
def SettledAfter (offset : Option ℤ) (rs : List Received) (s : GlobalState lv) : Prop :=
  ∃ before received after, messages rs = before ++ received :: after ∧ received.offset = offset ∧
    ∀ r ∈ after, r.Settled s

omit [FluidexCommon] [DecimalExt] in
theorem messages_msg (rs : List Received) (message : WrappedMessage) (schedule : Shuffle Task) :
    messages (rs ++ [.msg message schedule]) = messages rs ++ [.msg message schedule] := by
  rw [messages, List.filter_append]
  rfl

omit [FluidexCommon] [DecimalExt] in
/-- Waiting in vain is not a message. -/
theorem messages_timeout (rs : List Received) : messages (rs ++ [.timeout]) = messages rs := by
  rw [messages, List.filter_append]
  exact List.append_nil _

omit [FluidexCommon] [DecimalExt] in
/-- The messages with an offset above that of a message are those after it. -/
theorem exceeding_eq {rs before after : List Received} {received : Received} {k : ℤ}
    (h : Increasing rs) (heq : messages rs = before ++ received :: after)
    (hk : received.offset = some k) : exceeding k rs = after := by
  have hpairwise := h.pairwise
  rw [heq, List.pairwise_append, List.pairwise_cons] at hpairwise
  obtain ⟨-, ⟨hlater, -⟩, hearlier⟩ := hpairwise
  have hbefore : before.filter (fun r => r.offset.any (k < ·)) = [] := by
    refine List.filter_eq_nil_iff.2 fun r hr hany => ?_
    obtain ⟨k', hk', hlt⟩ := (Option.any_eq_true _ _).1 hany
    exact (of_decide_eq_true hlt).asymm (hearlier r hr received List.mem_cons_self k' hk' k hk)
  have hafter : after.filter (fun r => r.offset.any (k < ·)) = after := by
    refine List.filter_eq_self.2 fun r hr => ?_
    obtain ⟨k', hk'⟩ := Option.isSome_iff_exists.1 (h.isSome r (by rw [heq]; simp [hr]))
    exact (Option.any_eq_true _ _).2 ⟨k', hk', decide_eq_true (hlater r hr k hk k' hk')⟩
  rw [exceeding, heq, List.filter_append, hbefore, List.filter_cons_of_neg, hafter]
  · rfl
  · rw [hk]
    simp

namespace OrderMessage

variable {n n' : Node lv} {message : OrderMessage} {offset : Option ℤ}

/-- What handling a message on an order does: nothing, or cancelling the order. -/
theorem handled (hr : Processor.default.handleOrderMsg n ⟨message, offset⟩ = .ok n') :
    (n'.state = n.state ∨
      n.state.cancelOrder message.order.user (asU32 message.order.id) = .ok n'.state) ∧
    message.Settled n'.state := by
  simp only [Processor.handleOrderMsg] at hr
  cases hevent : message.event with
  -- Only the end of an order changes something.
  | put | update | expired =>
    rw [hevent] at hr
    obtain rfl := Exec.pure_eq_ok_iff.1 hr
    exact ⟨.inl rfl, fun h => by rw [hevent] at h; cases h⟩
  | finish =>
    rw [hevent] at hr
    obtain ⟨_, hzero, hr⟩ := Exec.bind_eq_ok_iff.1 hr
    rw [Exec.assert_eq_ok_iff] at hzero
    split at hr
    · -- The order was never traded, so it is not stored.
      next hempty =>
      obtain ⟨_, hnot, hr⟩ := Exec.bind_eq_ok_iff.1 hr
      obtain rfl := Exec.pure_eq_ok_iff.1 hr
      refine ⟨.inl rfl, fun _ => ⟨hzero, ?_⟩⟩
      rw [if_pos hempty]
      exact Exec.assert_eq_ok_iff.1 hnot
    · -- The order was traded, so it is cancelled.
      next hempty =>
      obtain ⟨_, -, hr⟩ := Exec.bind_eq_ok_iff.1 hr
      simp only [Node.step, GlobalState.apply, Exec.bind_eq_ok_iff, Exec.pure_eq_ok_iff] at hr
      obtain ⟨_, ⟨s, hs, rfl⟩, rfl⟩ := hr
      refine ⟨.inr hs, fun _ => ⟨hzero, ?_⟩⟩
      rw [if_neg hempty]
      exact GlobalState.cancelOrder_cancelled hs

/-- A message that has nothing left to do has nothing left to do after another one on an order. -/
theorem Settled.of_handled {other : OrderMessage} (h : other.Settled n.state)
    (hr : Processor.default.handleOrderMsg n ⟨message, offset⟩ = .ok n') : other.Settled n'.state := by
  rcases (handled hr).1 with hkeep | hcancel
  · rwa [hkeep]
  · intro hevent
    obtain ⟨hzero, hdone⟩ := h hevent
    refine ⟨hzero, ?_⟩
    split at hdone
    · next hempty =>
      rw [if_pos hempty, GlobalState.hasOrder, (GlobalState.cancelOrder_keeps hcancel).2]
      exact hdone
    · next hempty =>
      rw [if_neg hempty]
      exact hdone.of_cancelOrder hcancel

/-- A message that has nothing left to do does nothing. -/
theorem Settled.handle (h : message.Settled n.state) : ∃ s, s.Same n.state ∧
    Processor.default.handleOrderMsg n ⟨message, offset⟩ = .ok (n.advance none s) := by
  simp only [Processor.handleOrderMsg]
  cases hevent : message.event with
  | put | update | expired => exact ⟨n.state, .refl _, rfl⟩
  | finish =>
    obtain ⟨hzero, hdone⟩ := h hevent
    rw [assert, Exec.assert_of hzero, Exec.ok_bind]
    split at hdone
    · next hempty =>
      refine ⟨n.state, .refl _, ?_⟩
      rw [if_pos hempty, assert, Exec.assert_of hdone]
      rfl
    · next hempty =>
      have hstored : n.state.hasOrder message.order.user (asU32 message.order.id) := by
        obtain ⟨pos, -, -, hpos, -⟩ := hdone
        exact AList.lookup_isSome.1 (by rw [← GlobalState.getOrderPosById, hpos]; rfl)
      obtain ⟨s, hs, hsame⟩ := hdone.cancelOrder
      refine ⟨s, hsame, ?_⟩
      rw [if_neg hempty, assert, Exec.assert_of hstored, Exec.ok_bind]
      change (n.state.apply (.cancelOrder _ _) >>= fun r => pure (n.advance r.1 r.2)) = _
      rw [GlobalState.apply, hs]
      rfl

end OrderMessage

/-! ## Replaying -/

variable [Babyjubjub] [UserKey] {nTx : ℕ}

namespace Node

variable {n m n' m' : Node lv} {received : Received}

/-- A message that has nothing left to do does nothing. -/
theorem processMsg_settled (hlt : n.manager.bufferedTxs.length < n.manager.nTx)
    (h : received.Settled n.state) :
    ∃ n', n.processMsg received = .ok n' ∧ n'.manager.Same n.manager ∧
      n'.persistEveryNBlock = n.persistEveryNBlock ∧ n'.blocks = n.blocks := by
  cases received with
  | timeout => exact h.elim
  | msg message schedule =>
    cases message with
    | deposit _ | trade _ | transfer _ | user _ | withdraw _ => exact h.elim
    | order message =>
      obtain ⟨s, hs, hr⟩ : ∃ s, s.Same n.state ∧
        Processor.default.handleOrderMsg n message = .ok (n.advance none s) :=
        OrderMessage.Settled.handle h
      refine ⟨n.advance none s, ?_, ⟨hs, rfl, rfl, rfl, rfl⟩, rfl, rfl⟩
      change (Processor.default.handleOrderMsg n message >>= fun n => n.step .popAllBlocks) = _
      rw [hr, Exec.ok_bind, step_pop_of_lt (n := n.advance none s) hlt]

/-- Messages that have nothing left to do, handled one after the other, do nothing. -/
theorem replay (hlt : n.manager.bufferedTxs.length < n.manager.nTx) {rs : List Received}
    (h : ∀ received ∈ rs, received.Settled n.state) :
    ∃ n', Exec.run Node.processMsg n rs = .ok n' ∧ n'.manager.Same n.manager ∧
      n'.persistEveryNBlock = n.persistEveryNBlock ∧ n'.blocks = n.blocks := by
  induction rs with
  | nil => exact ⟨n, rfl, .refl _, rfl, rfl⟩
  | cons received rs ih =>
    obtain ⟨n₁, hst, hm₁, hp₁, hb₁⟩ := processMsg_settled hlt (h received List.mem_cons_self)
    obtain ⟨n₂, hrun, hm₂, hp₂, hb₂⟩ := ih fun r hr => h r (List.mem_cons_of_mem received hr)
    -- The other messages are handled as if the first one had not been there.
    obtain ⟨n', hrun', hk⟩ := (run_keeps hm₁ hp₁
      (List.forall₂_same.2 fun r _ => Received.Alike.refl r)).symm.exists_ok hrun
    obtain ⟨blocks, hblocks, hblocks₂⟩ := hk.blocks
    obtain rfl : blocks = [] := List.append_cancel_left
      ((hblocks₂.symm.trans hb₂).trans (List.append_nil _).symm)
    refine ⟨n', Exec.run_cons.2 ⟨n₁, hst, hrun'⟩, hk.manager.trans hm₂,
      hk.persistEveryNBlock.trans hp₂, ?_⟩
    rw [hblocks, List.append_nil, hb₁]

/-! ## What has been handled -/

omit [RustDecimal] [DecimalExt] [Babyjubjub] [UserKey] in
/-- The encoder is empty again after a block. -/
theorem popBlock_encodes (h : n.manager.Encodes (encoder lv)) (hr : n.popBlock = .ok n') :
    n'.manager.Encodes (encoder lv) := by
  simp only [popBlock, Exec.bind_eq_ok_iff, Prod.exists, Exec.pure_eq_ok_iff] at hr
  obtain ⟨block, e, hforge, written, -, rfl⟩ := hr
  rw [h.encoder] at hforge
  obtain rfl := forgeWithTxs_encoder h.sized h.txType_ne hforge
  exact ⟨h.sized, rfl, fun _ hmem => by cases hmem⟩

omit [RustDecimal] [DecimalExt] [Babyjubjub] [UserKey] [FluidexCommon] in
theorem advance_encodes (h : n.manager.Encodes (encoder lv)) {raw : RawTx} {s : GlobalState lv}
    (hraw : raw.txType ≠ .placeOrder) : (n.advance (some raw) s).manager.Encodes (encoder lv) := by
  refine ⟨h.sized, h.encoder, fun tx htx => ?_⟩
  rcases List.mem_append.1 htx with htx | htx
  · exact h.txType_ne tx htx
  · rwa [List.mem_singleton.1 htx]

omit [RustDecimal] [DecimalExt] [Babyjubjub] [UserKey] in
theorem fill_encodes (h : n.manager.Encodes (encoder lv)) : n.fill.manager.Encodes (encoder lv) := by
  refine ⟨h.sized, h.encoder, fun tx htx => ?_⟩
  rcases List.mem_append.1 htx with htx | htx
  · exact h.txType_ne tx htx
  · rw [List.eq_of_mem_replicate htx]
    exact nofun

theorem Processed.persistEveryNBlock (hst : n.Processed received n') :
    n'.persistEveryNBlock = n.persistEveryNBlock := by
  cases hst with
  | order _ _ | tx _ _ _ | idle _ => rfl
  | full _ _ _ hpop | flush _ hpop =>
    obtain ⟨block, written, hp⟩ := popBlock_popped hpop
    exact hp.persistEveryNBlock

/-- After receiving `rs`, the messages after the last transaction of the buffer have nothing left
    to do, and the encoder is a new one. -/
structure Resumable (nTx : ℕ) (rs : List Received) (n : Node lv) : Prop where
  idle : n.Idle nTx
  encodes : n.manager.Encodes (encoder lv)
  settled : ∀ raw ∈ n.manager.bufferedTxs.getLast?, SettledAfter raw.offset rs n.state

omit [Babyjubjub] [UserKey] in
/-- A new node can be resumed. -/
theorem Resumable.new (hpos : 0 < nTx) (persistEveryNBlock : ℕ) :
    (Node.new lv nTx none persistEveryNBlock).Resumable nTx [] :=
  ⟨⟨rfl, hpos⟩, ⟨rfl, rfl, fun _ h => by cases h⟩, fun _ h => by cases h⟩

omit [FluidexCommon] [DecimalExt] [Babyjubjub] [UserKey] in
/-- Only a message on an order is not a transaction. -/
theorem exists_order {message : WrappedMessage} (htx : message.isTx = false) :
    ∃ order, message = .order order := by
  cases message with
  | order order => exact ⟨order, rfl⟩
  | deposit _ | trade _ | transfer _ | user _ | withdraw _ => cases htx

variable {rs : List Received}

/-- Every iteration leaves a node that can be resumed. -/
theorem Processed.resumable (hst : n.Processed received n') (h : n.Resumable nTx rs) :
    n'.Resumable nTx (rs ++ [received]) := by
  have hidle := hst.idle_after h.idle
  cases hst with
  -- An order leaves the last transaction of the buffer as it is, and does not depend on what was
  -- handled since.
  | @order message schedule s hhandle hyields =>
    obtain ⟨htx, -⟩ : message.isTx = false ∧ s.root = n.state.root := by
      cases hyields with
      | order htx hroot => exact ⟨htx, hroot⟩
    obtain ⟨order, rfl⟩ := exists_order htx
    refine ⟨hidle, ⟨h.encodes.sized, h.encodes.encoder, h.encodes.txType_ne⟩, fun raw hraw => ?_⟩
    obtain ⟨before, last, after, heq, hoffset, hafter⟩ := h.settled raw hraw
    refine ⟨before, last, after ++ [.msg (.order order) schedule], ?_, hoffset, fun r hr => ?_⟩
    · rw [messages_msg, heq, List.append_assoc]
      rfl
    · rcases List.mem_append.1 hr with hr | hr
      · have hr := hafter r hr
        cases r with
        | timeout => exact hr.elim
        | msg message schedule =>
          cases message with
          | deposit _ | trade _ | transfer _ | user _ | withdraw _ => exact hr.elim
          | order other => exact OrderMessage.Settled.of_handled hr hhandle
      · rw [List.mem_singleton.1 hr]
        exact (OrderMessage.handled hhandle).2
  -- The transaction that was just emitted is the last one, with nothing after it.
  | @tx message schedule raw s hhandle hyields hlt =>
    cases hyields with
    | tx htx hoffset hroot htype =>
      refine ⟨hidle, advance_encodes h.encodes htype, fun raw' hraw' => ?_⟩
      obtain rfl : raw = raw' := by
        change raw' ∈ (n.manager.bufferedTxs ++ [raw]).getLast? at hraw'
        rw [List.getLast?_concat] at hraw'
        exact Option.some.inj hraw'
      exact ⟨messages rs, _, [], messages_msg rs message schedule, hoffset.symm,
        fun _ hr => by cases hr⟩
  | full hhandle hyields hfull hpop =>
    obtain ⟨block, written, hp⟩ := popBlock_popped hpop
    cases hyields with
    | tx htx hoffset hroot htype =>
      -- After a block the buffer is empty.
      refine ⟨hidle, popBlock_encodes (advance_encodes h.encodes htype) hpop, fun raw hraw => ?_⟩
      rw [hp.bufferedTxs] at hraw
      cases hraw
  | idle hempty =>
    refine ⟨hidle, h.encodes, fun raw hraw => ?_⟩
    rw [hempty] at hraw
    cases hraw
  | flush hne hpop =>
    obtain ⟨block, written, hp⟩ := popBlock_popped hpop
    refine ⟨hidle, popBlock_encodes (fill_encodes h.encodes) hpop, fun raw hraw => ?_⟩
    rw [hp.bufferedTxs] at hraw
    cases hraw

/-- Every run of the loop leaves a node that can be resumed. -/
theorem run_resumable {rs' : List Received} (h : n.Resumable nTx rs)
    (hr : Exec.run Node.processMsg n rs' = .ok n') :
    n'.Resumable nTx (rs ++ rs') ∧ n'.persistEveryNBlock = n.persistEveryNBlock := by
  induction rs' generalizing n rs with
  | nil =>
    obtain rfl := Exec.run_nil.1 hr
    rw [List.append_nil]
    exact ⟨h, rfl⟩
  | cons received rs' ih =>
    obtain ⟨n₁, hst, hr⟩ := Exec.run_cons.1 hr
    have hproc := processMsg_processed h.idle hst
    rw [List.append_cons, ← hproc.persistEveryNBlock]
    exact ih (hproc.resumable h) hr

/-! ## Taking a snapshot -/

/-- A snapshot has just been taken: it has the state, the block that has been returned last, and
    the offset of a message after which those received have nothing left to do. -/
structure TookAfter (n : Node lv) (rs : List Received) (snapshot : Snapshot lv) : Prop where
  state : snapshot.state = n.state
  blockOffset : snapshot.blockOffset = n.manager.blockGenerateNum
  bufferedTxs : n.manager.bufferedTxs = []
  block : ∃ block, n.blocks.getLast? = some block ∧ block.blockId + 1 = snapshot.blockOffset ∧
    snapshot.state.root = block.detail.newRoot
  settled : SettledAfter (some snapshot.kafkaOffset) rs n.state

omit [RustDecimal] [DecimalExt] [Babyjubjub] [UserKey] [FluidexCommon] in
/-- The last offset of transactions whose last ones have none. -/
theorem lastOffset_eq {txs nops : List RawTx} {raw : RawTx} {k : ℤ} (hraw : txs.getLast? = some raw)
    (hk : raw.offset = some k) (hnops : ∀ nop ∈ nops, nop.offset = none) :
    lastOffset (txs ++ nops) = some k := by
  obtain ⟨before, rfl⟩ := List.getLast?_eq_some_iff.1 hraw
  have hnone : nops.reverse.filterMap RawTx.offset = [] :=
    List.filterMap_eq_nil_iff.2 fun nop hnop => hnops nop (List.mem_reverse.1 hnop)
  rw [lastOffset, List.reverse_append, List.filterMap_append, hnone, List.nil_append,
    List.reverse_concat, List.filterMap_cons_some hk, List.head?_cons]

omit [FluidexCommon] [Babyjubjub] [UserKey] in
/-- The snapshot of a block was taken after the messages it counts. -/
theorem Popped.took {n₁ : Node lv} {block : L2Block} {written : List (Snapshot lv)}
    {snapshot : Snapshot lv} {k : ℤ} (hp : n₁.Popped block written n')
    (hsnapshots : n₁.snapshots = n.snapshots)
    (hmem : snapshot ∈ n'.snapshots.drop n.snapshots.length)
    (hroot : block.detail.newRoot = n₁.state.root)
    (hoffset : lastOffset (n₁.manager.blockTxs 0) = some k)
    (hsettled : SettledAfter (some k) rs n₁.state) : n'.TookAfter rs snapshot := by
  rw [hp.snapshots, hsnapshots, List.drop_left] at hmem
  obtain ⟨hstate, hnum, hkafka⟩ := hp.written snapshot hmem
  obtain rfl := Option.some.inj (hoffset.symm.trans hkafka)
  refine ⟨hstate.trans hp.state.symm, hnum, hp.bufferedTxs, ⟨block, ?_, ?_, ?_⟩, ?_⟩
  · rw [hp.blocks, List.getLast?_concat]
  · rw [hp.blockId, hnum, hp.blockGenerateNum]
  · rw [hstate, hroot]
  · rw [hp.state]
    exact hsettled

/-- If an iteration writes a snapshot, it has just been taken. -/
theorem Processed.took {snapshot : Snapshot lv} (hst : n.Processed received n')
    (h : n.Resumable nTx rs) (hinc : Increasing (rs ++ [received]))
    (hmem : snapshot ∈ n'.snapshots.drop n.snapshots.length) :
    n'.TookAfter (rs ++ [received]) snapshot := by
  cases hst with
  -- Without a block there is no new snapshot.
  | order _ _ | tx _ _ _ | idle _ =>
    change snapshot ∈ n.snapshots.drop n.snapshots.length at hmem
    rw [List.drop_length] at hmem
    cases hmem
  | @full message schedule raw s _ hhandle hyields hfull hpop =>
    obtain ⟨block, written, hp⟩ := popBlock_popped hpop
    cases hyields with
    | tx htx hoffset hroot htype =>
      obtain ⟨k, hk⟩ : ∃ k, message.offset = some k := by
        have hsome := hinc.isSome (.msg message schedule) (by rw [messages_msg]; simp)
        exact Option.isSome_iff_exists.1 hsome
      -- The message that fills the block is the last one it counts.
      have hlen : (n.advance (some raw) s).manager.bufferedTxs.length = n.manager.nTx :=
        List.length_append.trans hfull
      refine hp.took rfl hmem (hp.newRoot_advance hroot) (k := k) ?_
        ⟨messages rs, _, [], messages_msg rs message schedule, hk, fun _ hr => by cases hr⟩
      rw [ManagerWrapper.blockTxs_zero hlen, ← List.append_nil (ManagerWrapper.bufferedTxs _)]
      exact lastOffset_eq (List.getLast?_concat ..) (hoffset.trans hk) fun _ hnop => by cases hnop
  | flush hne hpop =>
    obtain ⟨block, written, hp⟩ := popBlock_popped hpop
    have hlt : n.manager.bufferedTxs.length < n.manager.nTx := h.idle.nTx_eq ▸ h.idle.length_lt
    -- The transactions that fill the block have no offset, so that the last one before them
    -- counts.
    obtain ⟨raw, hraw⟩ := Option.isSome_iff_exists.1 (List.getLast?_isSome.2 hne)
    obtain ⟨before, last, after, heq, hoffset, hafter⟩ := h.settled raw hraw
    obtain ⟨k, hk⟩ : ∃ k, last.offset = some k := by
      have hsome := hinc.isSome last (by rw [messages_timeout, heq]; simp)
      exact Option.isSome_iff_exists.1 hsome
    refine hp.took rfl hmem (hp.newRoot_fill hlt hne) (k := k) ?_
      ⟨before, last, after, (messages_timeout rs).trans heq, hk, hafter⟩
    rw [ManagerWrapper.blockTxs_zero (m := n.fill.manager) (length_fill hlt hne)]
    refine lastOffset_eq hraw (hoffset.symm.trans hk) fun nop hnop => ?_
    rw [List.eq_of_mem_replicate hnop]
    rfl

/-- The loop stops at once if blocks have no transactions. -/
theorem nTx_pos_of_processMsg (hr : n.processMsg received = .ok n') : 0 < n.manager.nTx := by
  obtain ⟨n₁, hrec, hpop⟩ := Exec.bind_eq_ok_iff.1 hr
  obtain ⟨_, hpop, -⟩ := Exec.bind_eq_ok_iff.1 hpop
  have hpos := ManagerWrapper.nTx_pos hpop
  cases received with
  | timeout =>
    by_cases hraw : n.manager.hasRawTx
    · rw [receive, if_pos hraw] at hrec
      obtain ⟨m, hflush, -⟩ := Exec.bind_eq_ok_iff.1 hrec
      exact (ManagerWrapper.flushWithNop_eq_ok_iff.1 hflush).1
    · rw [receive, if_neg hraw, Exec.pure_eq_ok_iff] at hrec
      rwa [hrec]
  | msg message schedule =>
    obtain ⟨_, -, raw, s, _, -, -, rfl, -⟩ :=
      (Processor.default.handleMsg_related (.refl n.state) message (.inl rfl)).exists_ok hrec
    cases raw <;> exact hpos

end Node

/-- A loop that starts with a new manager receives `pre`, takes a snapshot when receiving
    something, and then receives `post`. A loop over the state of the snapshot that is fed the
    messages after the offset of the snapshot, and then `post`, leads to the same states and
    returns the same blocks. -/
theorem resume {pre post fed : List Received} {received : Received} {n n' m : Node lv}
    {persistEveryNBlock : ℕ} {snapshot : Snapshot lv} {s : GlobalState lv}
    (hinc : Increasing (pre ++ [received]))
    (hpre : Exec.run Node.processMsg (Node.new lv nTx none persistEveryNBlock) pre = .ok n)
    (hst : n.processMsg received = .ok n')
    (hmem : snapshot ∈ n'.snapshots.drop n.snapshots.length)
    (hpost : Exec.run Node.processMsg n' post = .ok m) (hs : s.Same snapshot.state)
    (hfed : List.Forall₂ Received.Alike fed
      (exceeding snapshot.kafkaOffset (pre ++ [received]) ++ post)) :
    (∃ block, n'.blocks.getLast? = some block ∧ block.blockId + 1 = snapshot.blockOffset ∧
      snapshot.state.root = block.detail.newRoot) ∧
    ∃ m', Exec.run Node.processMsg
        (.restart s nTx (some snapshot.blockOffset) persistEveryNBlock) fed = .ok m' ∧
      m'.manager.Same m.manager ∧ m.blocks = n'.blocks ++ m'.blocks := by
  have hpos : 0 < nTx := by
    cases pre with
    | nil =>
      obtain rfl := Exec.run_nil.1 hpre
      exact Node.nTx_pos_of_processMsg hst
    | cons first pre =>
      obtain ⟨_, hfirst, -⟩ := Exec.run_cons.1 hpre
      exact Node.nTx_pos_of_processMsg hfirst
  obtain ⟨hn, hpersist⟩ := Node.run_resumable (.new hpos persistEveryNBlock) hpre
  rw [List.nil_append] at hn
  have hproc := Node.processMsg_processed hn.idle hst
  have hn' := hproc.resumable hn
  have htook := hproc.took hn hinc hmem
  obtain ⟨before, last, after, heq, hoffset, hafter⟩ := htook.settled
  rw [exceeding_eq hinc heq hoffset] at hfed
  -- The loop that has not been stopped could be fed the settled messages once more.
  have hlt : n'.manager.bufferedTxs.length < n'.manager.nTx := hn'.idle.nTx_eq ▸ hn'.idle.length_lt
  obtain ⟨n₁, hreplay, hm₁, hp₁, hb₁⟩ := Node.replay hlt hafter
  obtain ⟨m₁, hrun₁, hk₁⟩ := (Node.run_keeps hm₁ hp₁
    (List.forall₂_same.2 fun r _ => Received.Alike.refl r)).symm.exists_ok hpost
  have hall : Exec.run Node.processMsg n' (after ++ post) = .ok m₁ :=
    Exec.run_append.2 ⟨n₁, hreplay, hrun₁⟩
  -- It does what the loop over the snapshot does.
  rw [htook.state] at hs
  have hrestart : (Node.restart s nTx (some snapshot.blockOffset)
      persistEveryNBlock).manager.Same n'.manager :=
    ⟨hs, hn'.idle.nTx_eq.symm, htook.bufferedTxs.symm, htook.blockOffset,
      hn'.encodes.encoder.symm⟩
  obtain ⟨m', hrun, hk⟩ := (Node.run_keeps hrestart
    (hproc.persistEveryNBlock.trans hpersist).symm hfed).symm.exists_ok hall
  refine ⟨htook.block, m', hrun, hk.manager.trans hk₁.manager, ?_⟩
  obtain ⟨blocks, hblocks, hblocks₁⟩ := hk.blocks
  obtain ⟨blocks₁, hblocks₁', hblocks'⟩ := hk₁.blocks
  rw [hblocks', ← hb₁, ← hblocks₁', hblocks₁, hblocks, hb₁]
  rfl

end Resuming

/-! ## A snapshot before a new user, and before a transfer of an account to itself -/

section Example

attribute [local instance] FluidexCommon.sample RustDecimal.sample Babyjubjub.sample
  DecimalExt.sample UserKey.sample

/-- One user before the snapshot, one after it. -/
theorem resume_newUser : ∃ n n' m snapshot m',
    Exec.run Node.processMsg (Node.new Levels.small 2 none 1) [newUser 0 1] = .ok n ∧
    n.processMsg .timeout = .ok n' ∧ n'.snapshots = [snapshot] ∧
    Exec.run Node.processMsg n' [newUser 1 2, .timeout] = .ok m ∧
    Exec.run Node.processMsg (.restart snapshot.state 2 (some snapshot.blockOffset) 1)
      [newUser 1 2, .timeout] = .ok m' ∧
    m.blocks = n'.blocks ++ m'.blocks := by
  obtain ⟨⟨n, n', m, snapshot⟩, hrun⟩ := Exec.exists_eq_ok (do
    let n ← Exec.run Node.processMsg (Node.new Levels.small 2 none 1) [newUser 0 1]
    let n' ← n.processMsg .timeout
    let m ← Exec.run Node.processMsg n' [newUser 1 2, .timeout]
    let snapshot : Snapshot Levels.small ← unwrap n'.snapshots.head?
    assert (snapshot.kafkaOffset = 1) "the offset of the first user"
    assert (n'.snapshots.tail.length = 0) "one snapshot"
    assert (n.snapshots.length = 0) "no snapshot before"
    pure (n, n', m, snapshot)) (by decide +kernel)
  simp only [Exec.bind_eq_ok_iff, Exec.unwrap_eq_ok_iff, Exec.assert_eq_ok_iff,
    Exec.pure_eq_ok_iff, Prod.mk.injEq] at hrun
  obtain ⟨n, hn, n', hn', m, hm, snapshot, hsnap, _, hkafka, _, htail, _, hnone, rfl, rfl, rfl,
    rfl⟩ := hrun
  have hsnapshots : n'.snapshots = [snapshot] := by
    rw [← List.cons_head?_tail hsnap, List.length_eq_zero_iff.1 htail]
  have hinc : Increasing ([newUser 0 1] ++ [.timeout]) :=
    ⟨by decide, List.pairwise_singleton _ _⟩
  have hfed : List.Forall₂ Received.Alike [newUser 1 2, .timeout]
      (exceeding snapshot.kafkaOffset ([newUser 0 1] ++ [.timeout]) ++ [newUser 1 2, .timeout]) := by
    rw [hkafka]
    exact List.forall₂_same.2 fun r _ => .refl r
  obtain ⟨-, m', hm', -, hblocks⟩ := resume hinc hn hn'
    (by rw [hnone, hsnapshots]; exact List.mem_singleton_self _) hm (.refl _) hfed
  exact ⟨n, n', m, snapshot, m', hn, hn', hsnapshots, hm, hm', hblocks⟩

/-- The `y` of the key of the users. -/
def usersKey : ℕ := 53 * ((256 ^ 32 - 1) / 255) % Fr.modulus

/-- The account `0` deposits five `ETH`. -/
def depositFive (offset : ℤ) : Received :=
  .msg (.deposit ⟨{ userId := 0, asset := "ETH", change := (5 : ℚ), balance := (5 : ℚ) },
    some offset⟩) .id

/-- The account `0` transfers two `ETH` to itself. -/
def transferTwo (offset : ℤ) (schedule : Shuffle Task) : Received :=
  .msg (.transfer ⟨{
    userFrom := 0
    userTo := 0
    asset := "ETH"
    amount := (2 : ℚ)
    signature := Babyjubjub.sampleSign (TransferTx.new 0 0 0 20000).hash usersKey }, some offset⟩)
    schedule

/-- The tasks of the transfer run in one order before the restart and in the other one after it:
    the states and the blocks are different. -/
theorem not_resumed_transferTwo : ∃ n n' m snapshot m' block block',
    Exec.run Node.processMsg (Node.new Levels.small 2 none 1) [newUser 0 1] = .ok n ∧
    n.processMsg (depositFive 2) = .ok n' ∧ n'.snapshots.head? = some snapshot ∧
    exceeding snapshot.kafkaOffset [newUser 0 1, depositFive 2] = [] ∧
    Exec.run Node.processMsg n' [transferTwo 3 .id, .timeout] = .ok m ∧
    Exec.run Node.processMsg (.restart snapshot.state 2 (some snapshot.blockOffset) 1)
      [transferTwo 3 .reverse, .timeout] = .ok m' ∧
    m.blocks.getLast? = some block ∧ m'.blocks.getLast? = some block' ∧
    block.blockId = block'.blockId ∧ block.detail.newRoot ≠ block'.detail.newRoot ∧
    ¬m'.state.Same m.state := by
  obtain ⟨⟨n, n', m, snapshot, m', block, block'⟩, hrun⟩ := Exec.exists_eq_ok (do
    let n ← Exec.run Node.processMsg (Node.new Levels.small 2 none 1) [newUser 0 1]
    let n' ← n.processMsg (depositFive 2)
    let m ← Exec.run Node.processMsg n' [transferTwo 3 .id, .timeout]
    let snapshot : Snapshot Levels.small ← unwrap n'.snapshots.head?
    let m' ← Exec.run Node.processMsg (.restart snapshot.state 2 (some snapshot.blockOffset) 1)
      [transferTwo 3 .reverse, .timeout]
    let block : L2Block ← unwrap m.blocks.getLast?
    let block' : L2Block ← unwrap m'.blocks.getLast?
    assert ((exceeding snapshot.kafkaOffset [newUser 0 1, depositFive 2]).length = 0) "nothing"
    assert (block.blockId = block'.blockId ∧ block.detail.newRoot ≠ block'.detail.newRoot) "blocks"
    assert (m'.state.root ≠ m.state.root) "roots"
    pure (n, n', m, snapshot, m', block, block')) (by decide +kernel)
  simp only [Exec.bind_eq_ok_iff, Exec.unwrap_eq_ok_iff, Exec.assert_eq_ok_iff,
    Exec.pure_eq_ok_iff, Prod.mk.injEq] at hrun
  obtain ⟨n, hn, n', hn', m, hm, snapshot, hsnap, m', hm', block, hblock, block', hblock', _, hnone,
    _, ⟨hid, hnew⟩, _, hroot, rfl, rfl, rfl, rfl, rfl, rfl, rfl⟩ := hrun
  exact ⟨n, n', m, snapshot, m', block, block', hn, hn', hsnap, List.length_eq_zero_iff.1 hnone, hm,
    hm', hblock, hblock', hid, hnew, fun h => hroot h.root_eq⟩

end Example

end Rollup
