import Rollup.Emitted
import Rollup.Manager.Buffer
import Rollup.Messages
import Rollup.Same

/-!
# Handling a message

A message either is a transaction, and emits one raw transaction with its offset and the
new root, or ends an order, which changes neither the root nor the buffer
(`WrappedMessage.Yields`). What a handler does depends on the state only up to the order in
which its maps are stored, and on the schedule only if the sender of a transfer is the
receiver (`handleMsg_related`): it can be compared on two nodes that have been fed by
different runs.
-/

namespace Rollup

section Handling

variable [FluidexCommon] {lv : Levels}

open Exec (Related)

/-! ## Operations -/

/-- The offset of the message that the operation comes from. -/
def Op.offset : Op → Option ℤ
  | .keyUpdate _ offset | .deposit _ offset | .transfer _ _ offset | .withdraw _ offset
  | .fullSpotTrade _ _ offset => offset
  | _ => none

/-- What is emitted has the offset of the operation and the new root, and can be encoded. -/
theorem GlobalState.apply_raw {s s' : GlobalState lv} {op : Op} {raw : RawTx}
    (hr : s.apply op = .ok (some raw, s')) : raw.offset = op.offset ∧ raw.rootAfter = s'.root ∧
      raw.txType ≠ .placeOrder := by
  -- What emits nothing is not meant.
  generalize hraw : some raw = r at hr
  cases applied hr with
  | createNewAccount _ | setAccountL2Addr _ | setAccountNonce _ | setAccountOrder _
  | setTokenBalance _ | cancelOrder _ | flushWithNop | popAllBlocks => cases hraw
  | keyUpdate hr =>
    rw [GlobalState.keyUpdate] at hr
    split at hr
    · obtain ⟨rfl, -⟩ := Prod.mk.inj (Except.ok.inj hr)
      cases hraw
    · simp only [Exec.bind_eq_ok_iff, Exec.pure_eq_ok_iff, Prod.mk.injEq] at hr
      obtain ⟨_, -, _, -, _, -, rfl, rfl⟩ := hr
      obtain rfl := Option.some.inj hraw
      exact ⟨rfl, rfl, fun h => (by cases h)⟩
  | deposit hr =>
    rw [GlobalState.deposit] at hr
    split at hr
    · obtain ⟨rfl, -⟩ := Prod.mk.inj (Except.ok.inj hr)
      cases hraw
    split at hr
    · obtain ⟨rfl, -⟩ := Prod.mk.inj (Except.ok.inj hr)
      cases hraw
    · simp only [Exec.bind_eq_ok_iff, Exec.pure_eq_ok_iff, Prod.mk.injEq] at hr
      obtain ⟨_, -, _, -, _, -, rfl, rfl⟩ := hr
      obtain rfl := Option.some.inj hraw
      exact ⟨rfl, rfl, fun h => (by cases h)⟩
  | transfer hr =>
    obtain rfl := Option.some.inj hraw
    obtain ⟨⟨htype, hoffset⟩, hroot⟩ := transfer_raw hr
    exact ⟨hoffset, hroot, htype.trans_ne (by decide)⟩
  | withdraw hr =>
    obtain rfl := Option.some.inj hraw
    simp only [GlobalState.withdraw, Exec.bind_eq_ok_iff, Exec.pure_eq_ok_iff, Prod.mk.injEq] at hr
    obtain ⟨_, -, _, -, _, -, rfl, rfl⟩ := hr
    exact ⟨rfl, rfl, fun h => (by cases h)⟩
  | fullSpotTrade hr =>
    obtain rfl := Option.some.inj hraw
    obtain ⟨⟨htype, hoffset⟩, hroot⟩ := fullSpotTrade_raw hr
    exact ⟨hoffset, hroot, htype.trans_ne (by decide)⟩
  | nop =>
    obtain rfl := Option.some.inj hraw
    exact ⟨rfl, rfl, fun h => (by cases h)⟩

omit [FluidexCommon] in
/-- Cancelling an order only changes the orders. -/
theorem GlobalState.cancelOrder_keeps {s s' : GlobalState lv} {a orderId : ℕ}
    (hr : s.cancelOrder a orderId = .ok s') :
    s'.root = s.root ∧ s'.orderIdToPos = s.orderIdToPos := by
  simp only [GlobalState.cancelOrder, updateOrderState, Exec.bind_eq_ok_iff,
    Exec.pure_eq_ok_iff] at hr
  obtain ⟨_, -, _, -, _, -, _, -, rfl⟩ := hr
  exact ⟨rfl, rfl⟩

/-! ## Messages -/

variable [RustDecimal]

namespace WrappedMessage

omit [FluidexCommon]

/-- The offset that the message had in the queue. -/
def offset : WrappedMessage → Option ℤ
  | .deposit message => message.offset
  | .order message => message.offset
  | .trade message => message.offset
  | .transfer message => message.offset
  | .user message => message.offset
  | .withdraw message => message.offset

/-- The message is a transaction: all of them are but those on orders. -/
def isTx : WrappedMessage → Bool
  | .order _ => false
  | _ => true

/-- The sender is the receiver: the two tasks of the transfer update the same tree. -/
def IsSelfTransfer : WrappedMessage → Prop
  | .transfer message => message.message.userFrom = message.message.userTo
  | _ => False

/-- What a message emits, and what it does to the root. -/
inductive Yields (message : WrappedMessage) (before after : GlobalState lv) : Option RawTx → Prop
  | tx {raw : RawTx} : message.isTx = true → raw.offset = message.offset →
      raw.rootAfter = after.root → raw.txType ≠ .placeOrder → Yields message before after (some raw)
  | order : message.isTx = false → after.root = before.root → Yields message before after none

end WrappedMessage

/-- The message has led the nodes from `n` and `m` to `n'` and `m'`: it has emitted the same
    transaction on both, or none, and led to states that are the same. -/
def Node.Advances (message : WrappedMessage) (n m n' m' : Node lv) : Prop :=
  ∃ raw s s', s.Same s' ∧ message.Yields n.state s raw ∧ n' = n.advance raw s ∧ m' = m.advance raw s'

/-! ## What the checks of a trade read -/

/-- The balances and the orders that are read in the states are the same. -/
structure GlobalState.ReadsSame (s s' : GlobalState lv) : Prop where
  getTokenBalance : ∀ a token, s.getTokenBalance a token = s'.getTokenBalance a token
  hasOrder : ∀ a orderId, s.hasOrder a orderId ↔ s'.hasOrder a orderId
  getAccountOrderById : ∀ a orderId,
    s.getAccountOrderById a orderId = s'.getAccountOrderById a orderId

omit [RustDecimal] in
theorem GlobalState.Same.readsSame {s s' : GlobalState lv} (h : s.Same s') : s.ReadsSame s' :=
  ⟨h.getTokenBalance_eq, h.hasOrder_iff, h.getAccountOrderById_eq⟩

namespace GlobalState.ReadsSame

variable [DecimalExt] {s s' : GlobalState lv} (h : s.ReadsSame s')
include h

theorem checkBalanceState_eq : checkBalanceState s = checkBalanceState s' := by
  funext balanceState
  simp only [checkBalanceState, h.getTokenBalance]

theorem checkOrderState_eq (baseTokenId quoteTokenId : ℕ) :
    checkOrderState s baseTokenId quoteTokenId = checkOrderState s' baseTokenId quoteTokenId := by
  funext orderState
  simp only [checkOrderState, h.getAccountOrderById]
  exact if_congr (h.hasOrder _ _) rfl rfl

/-- The checks only depend on the market of the trade. -/
theorem checkState_eq {trade trade' : TradeMessage} (hmarket : trade.market = trade'.market)
    (state : Option VerboseTradeState) : checkState s trade state = checkState s' trade' state := by
  cases state with
  | none => rfl
  | some state =>
    simp only [checkState, h.checkBalanceState_eq, h.checkOrderState_eq, hmarket]

end GlobalState.ReadsSame

section Handlers

variable {n m : Node lv} {message : WrappedMessage}

/-- An operation whose result is unwrapped. -/
theorem stepUnwrap_related {op : Op} (htx : message.isTx = true) (hoff : op.offset = message.offset)
    (h : Related SameReturn (n.state.apply op) (m.state.apply op)) :
    Related (Node.Advances message n m) (n.stepUnwrap op) (m.stepUnwrap op) := by
  refine h.eqs.bind ?_
  rintro ⟨raw, s⟩ ⟨_, s'⟩ ⟨⟨rfl, hs⟩, hr, -⟩
  cases raw with
  | none => exact .error
  | some raw =>
    obtain ⟨hraw, hroot, htype⟩ := GlobalState.apply_raw hr
    exact .ok ⟨some raw, s, s', hs, .tx htx (hraw.trans hoff) hroot htype, rfl, rfl⟩

/-- An operation that always emits a transaction. -/
theorem step_related {op op' : Op} (htx : message.isTx = true) (hoff : op.offset = message.offset)
    (hn : n.step op = n.state.apply op >>= fun r => pure (n.advance r.1 r.2))
    (hm : m.step op' = m.state.apply op' >>= fun r => pure (m.advance r.1 r.2))
    (hsome : ∀ s, n.state.apply op ≠ .ok (none, s))
    (h : Related SameReturn (n.state.apply op) (m.state.apply op')) :
    Related (Node.Advances message n m) (n.step op) (m.step op') := by
  rw [hn, hm]
  refine h.eqs.bind ?_
  rintro ⟨raw, s⟩ ⟨_, s'⟩ ⟨⟨rfl, hs⟩, hr, -⟩
  cases raw with
  | none => exact absurd hr (hsome s)
  | some raw =>
    obtain ⟨hraw, hroot, htype⟩ := GlobalState.apply_raw hr
    exact .ok ⟨some raw, s, s', hs, .tx htx (hraw.trans hoff) hroot htype, rfl, rfl⟩

/-! ## Transactions -/

namespace Processor

variable (p : Processor) (h : n.state.Same m.state)
include h

omit [RustDecimal] in
theorem checkSig_eq [Babyjubjub] (a : ℕ) (msg : Fr) (sig : SignatureBJJ) :
    n.state.checkSig a msg sig = m.state.checkSig a msg sig := by
  rw [GlobalState.checkSig]
  rw [h.getAccount_eq]
  exact if_congr (not_congr (h.hasAccount_iff a)) rfl rfl

theorem handleDepositMsg_related (message : Message DepositMessage) :
    Related (Node.Advances (.deposit message) n m) (p.handleDepositMsg n message)
      (p.handleDepositMsg m message) := by
  refine .assert_bind Iff.rfl fun _ => .bind_self fun tokenId _ => .bind_self fun before _ => ?_
  refine .assert_bind Iff.rfl fun _ => ?_
  rw [h.getTokenBalance_eq]
  refine .bind_self fun expected _ => .bind_self fun precision _ => .bind_self fun old _ => ?_
  refine .assert_bind Iff.rfl fun _ => .bind_self fun amount _ => ?_
  refine stepUnwrap_related rfl rfl ((h.deposit _).bind ?_)
  rintro ⟨result, s⟩ ⟨_, s'⟩ ⟨rfl, hs⟩
  exact .pure_pure ⟨rfl, hs⟩

theorem handleWithdrawMsg_related [Babyjubjub] (message : Message WithdrawMessage) :
    Related (Node.Advances (.withdraw message) n m) (p.handleWithdrawMsg n message)
      (p.handleWithdrawMsg m message) := by
  unfold handleWithdrawMsg checkWithdrawSig
  simp only [h.getTokenBalance_eq, checkSig_eq h]
  refine .assert_bind Iff.rfl fun _ => .bind_self fun tokenId _ => .bind_self fun before _ => ?_
  refine .assert_bind Iff.rfl fun _ => .bind_self fun expected _ => .bind_self fun precision _ => ?_
  refine .bind_self fun old _ => .assert_bind Iff.rfl fun _ => .bind_self fun amount _ => ?_
  refine .bind_self fun rawSig _ => ?_
  have hstep (tx : WithdrawTx) : Related (Node.Advances (.withdraw message) n m)
      (n.step (.withdraw tx message.offset)) (m.step (.withdraw tx message.offset)) := by
    refine step_related rfl rfl rfl rfl (fun s hr => ?_) ((h.withdraw tx).bind ?_)
    · obtain ⟨_, -, hr⟩ := Exec.bind_eq_ok_iff.1 hr
      cases hr
    · rintro ⟨raw, s⟩ ⟨_, s'⟩ ⟨rfl, hs⟩
      exact .pure_pure ⟨rfl, hs⟩
  exact .ite Iff.rfl (fun _ => .bind_self fun _ _ => hstep _) fun _ => hstep _

variable [DecimalExt]

/-- The schedule only matters if the sender is the receiver. -/
theorem handleTransferMsg_related [Babyjubjub] {schedule schedule' : Shuffle Task}
    (message : Message TransferMessage)
    (hs : schedule = schedule' ∨ ¬(WrappedMessage.transfer message).IsSelfTransfer) :
    Related (Node.Advances (.transfer message) n m) (p.handleTransferMsg n schedule message)
      (p.handleTransferMsg m schedule' message) := by
  unfold handleTransferMsg checkTransferSig
  simp only [h.getTokenBalance_eq, checkSig_eq h]
  refine .assert_bind Iff.rfl fun _ => .bind_self fun tokenId _ => .bind_self fun balance _ => ?_
  refine .bind_self fun precision _ => .bind_self fun fromBalance _ => .assert_bind Iff.rfl fun _ => ?_
  refine .bind_self fun rawSig _ => .bind_self fun amount _ => .bind_self fun _ _ => ?_
  refine step_related rfl rfl rfl rfl (fun s hr => ?_) ((h.transfer hs).bind ?_)
  · obtain ⟨_, -, hr⟩ := Exec.bind_eq_ok_iff.1 hr
    cases hr
  · rintro ⟨raw, s⟩ ⟨_, s'⟩ ⟨rfl, hs⟩
    exact .pure_pure ⟨rfl, hs⟩

/-! ## Trades -/

theorem sideOrder_related [Babyjubjub] (origin : Option Messages.Order) :
    Related Eq (p.sideOrder n.state origin) (p.sideOrder m.state origin) := by
  cases origin with
  | none => exact .pure_pure rfl
  | some origin =>
    unfold sideOrder checkOrderSig
    simp only [checkSig_eq h]
    refine .bind_self fun orderInput _ => .bind_self fun _ _ => ?_
    exact .assert_bind (not_congr (h.hasOrder_iff _ _)) fun _ => .refl (fun _ => rfl) _

theorem handleTradeMsg_related [Babyjubjub] (schedule schedule' : Shuffle Task) (message : Message TradeMessage) :
    Related (Node.Advances (.trade message) n m) (p.handleTradeMsg n schedule message)
      (p.handleTradeMsg m schedule' message) := by
  rw [handleTradeMsg]
  dsimp only
  rw [h.readsSame.checkState_eq rfl]
  refine .bind_self fun _ _ => (sideOrder_related p h _).bind fun askOrder _ heq => ?_
  subst heq
  refine (sideOrder_related p h _).bind fun bidOrder _ heq => .bind_self fun spotTx _ => ?_
  subst heq
  refine .bind (R := Node.Advances (.trade message) n m) ?_ fun n' m' hadv => ?_
  · refine step_related rfl rfl rfl rfl (fun s hr => ?_) ((h.fullSpotTrade _ _ _).bind ?_)
    · obtain ⟨_, -, hr⟩ := Exec.bind_eq_ok_iff.1 hr
      cases hr
    · rintro ⟨raw, s⟩ ⟨_, s'⟩ ⟨rfl, hs⟩
      exact .pure_pure ⟨rfl, hs⟩
  · have hstate : n'.state.Same m'.state := by
      obtain ⟨raw, s, s', hs, -, rfl, rfl⟩ := hadv
      rwa [Node.advance, Node.advance, Node.emit_state, Node.emit_state]
    rw [hstate.readsSame.checkState_eq rfl]
    exact .bind_self fun _ _ => .pure_pure hadv

/-! ## Users and orders -/

omit [DecimalExt] in
theorem handleUserMsg_related [Babyjubjub] [UserKey] (message : Message UserMessage) :
    Related (Node.Advances (.user message) n m) (p.handleUserMsg n message)
      (p.handleUserMsg m message) := by
  refine .assert_bind (not_congr (h.hasAccount_iff _)) fun _ => ?_
  refine .bind_self fun l2Pubkey _ => .bind_self fun bjjCompressed _ => ?_
  refine .bind_self fun l2PubkeyPoint _ => .bind_self fun ethAddr _ => ?_
  refine stepUnwrap_related rfl rfl ((h.keyUpdate _).bind ?_)
  rintro ⟨result, s⟩ ⟨_, s'⟩ ⟨rfl, hs⟩
  exact .pure_pure ⟨rfl, hs⟩

/-- A message on an order leaves the node as it is, or cancels the order. -/
theorem handleOrderMsg_related (message : Message OrderMessage) :
    Related (Node.Advances (.order message) n m) (p.handleOrderMsg n message)
      (p.handleOrderMsg m message) := by
  have hkeep : Node.Advances (.order message) n m n m :=
    ⟨none, n.state, m.state, h, .order rfl rfl, rfl, rfl⟩
  unfold handleOrderMsg
  dsimp only
  cases message.message.event with
  | put | update | expired => exact .pure_pure hkeep
  | finish =>
    refine .assert_bind Iff.rfl fun _ => .ite Iff.rfl (fun _ => ?_) fun _ => ?_
    · exact .assert_bind (not_congr (h.hasOrder_iff _ _)) fun _ => .pure_pure hkeep
    · refine .assert_bind (h.hasOrder_iff _ _) fun _ => ?_
      change Related _ (n.state.apply (.cancelOrder _ _) >>= fun r => pure (n.advance r.1 r.2))
        (m.state.apply (.cancelOrder _ _) >>= fun r => pure (m.advance r.1 r.2))
      refine .bind (R := fun r r' => r.1 = none ∧ r'.1 = none ∧ r.2.Same r'.2 ∧
        r.2.root = n.state.root) ((h.cancelOrder _ _).eqs.bind ?_) ?_
      · rintro s s' ⟨hs, hr, -⟩
        exact .pure_pure ⟨rfl, rfl, hs, (GlobalState.cancelOrder_keeps hr).1⟩
      · rintro ⟨_, s⟩ ⟨_, s'⟩ ⟨rfl, rfl, hs, hroot⟩
        exact .pure_pure ⟨none, s, s', hs, .order rfl hroot, rfl, rfl⟩

/-- From states that are the same, a message does the same. -/
theorem handleMsg_related [Babyjubjub] [UserKey] {schedule schedule' : Shuffle Task}
    (message : WrappedMessage) (hs : schedule = schedule' ∨ ¬message.IsSelfTransfer) :
    Related (Node.Advances message n m) (p.handleMsg n schedule message)
      (p.handleMsg m schedule' message) := by
  cases message with
  | deposit message => exact p.handleDepositMsg_related h message
  | order message => exact p.handleOrderMsg_related h message
  | trade message => exact p.handleTradeMsg_related h schedule schedule' message
  | transfer message => exact p.handleTransferMsg_related h message hs
  | user message => exact p.handleUserMsg_related h message
  | withdraw message => exact p.handleWithdrawMsg_related h message

end Processor

end Handlers

end Handling

end Rollup
