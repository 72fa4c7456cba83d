import Rollup.Ledger.Batch
import Rollup.Ledger.Finding
import Rollup.Manager

/-!
# What the transactions do to the ledger

One theorem for each transaction of the manager: the entries it replaces in the
ledger, and what its raw transaction is made of.
-/

namespace Rollup

variable [FluidexCommon] {lv : Levels} {s s' : GlobalState lv} {L : Ledger lv} {offset : Option ℤ}

namespace Entry

/-- The key changes if there is a new one. -/
def setNewL2Addr (e : Entry lv) : Option L2Key → Entry lv
  | some l2key => e.setL2Addr l2key.sign l2key.ay
  | none => e

/-- The balance tree after several writes. -/
def putBalances (e : Entry lv) (updates : List (ℕ × Fr)) : Entry lv :=
  e.setBalanceTree (updates.foldl (fun t u => t.put u.1 u.2) e.balanceTree)

/-- The leaves are those after the updates, one after the other. -/
theorem getLeaf_putBalances (e : Entry lv) (updates : List (ℕ × Fr)) {token : ℕ}
    (htoken : token < 2 ^ lv.balanceLevels) : (e.putBalances updates).balanceTree.getLeaf token =
      writes updates e.balanceTree.getLeaf token :=
  Tree.getLeaf_setValueParallel (Tree.setValueParallel_eq _ _ (show 2 ≠ 1 by decide)) htoken

/-- A trade of an order leads from `e` to `e'`. -/
def Trades (e : Entry lv) (order : Order) (pos : ℕ) (sell buy : Fr) (updates : List (ℕ × Fr))
    (e' : Entry lv) : Prop :=
  ∃ placed ot, e.Place order.orderId pos placed ∧
    e.orderTree.setValue pos (order.tradeWith sell buy).hash = .ok ot ∧
    e' = (((placed.setOrder pos (order.tradeWith sell buy)).putBalances updates).setOrderTree ot).commit

/-- The same, the position being the one that is found. -/
def TradesAt (e : Entry lv) (order : Order) (pos : ℕ) (sell buy : Fr) (updates : List (ℕ × Fr))
    (e' : Entry lv) : Prop :=
  ∃ placed ot, e.Finds order.orderId pos placed ∧
    e.orderTree.setValue pos (order.tradeWith sell buy).hash = .ok ot ∧
    e' = (((placed.setOrder pos (order.tradeWith sell buy)).putBalances updates).setOrderTree ot).commit

/-- An order whose slot was found is traded. -/
theorem TradesAt.trades {e e' : Entry lv} {order : Order} {pos : ℕ} {sell buy : Fr}
    {updates : List (ℕ × Fr)} (h : e.TradesAt order pos sell buy updates e') :
    e.Trades order pos sell buy updates e' := by
  obtain ⟨placed, ot, hf, hot, he'⟩ := h
  exact ⟨placed, ot, hf.place, hot, he'⟩

end Entry

namespace Entry.Trades

variable {e e' : Entry lv} {order : Order} {pos : ℕ} {sell buy : Fr} {updates : List (ℕ × Fr)}
  (h : e.Trades order pos sell buy updates e')
include h

theorem balanceTree_eq : e'.balanceTree = (e.putBalances updates).balanceTree := by
  obtain ⟨placed, ot, hplace, -, rfl⟩ := h
  exact congrArg (fun t => updates.foldl (fun t u => t.put u.1 u.2) t) hplace.balanceTree_eq

theorem setValue_orderTree :
    e.orderTree.setValue pos (order.tradeWith sell buy).hash = .ok e'.orderTree := by
  obtain ⟨placed, ot, -, hset, rfl⟩ := h
  exact hset

theorem orders_eq : e'.orders = e.orders.insert pos (order.tradeWith sell buy) := by
  obtain ⟨placed, ot, hplace, -, rfl⟩ := h
  exact congrArg (fun orders => orders.insert pos (order.tradeWith sell buy)) hplace.orders_eq

/-- A trade only changes the roots in the state. -/
theorem state_eq : e'.state = { e.state with
    balanceRoot := e'.balanceTree.getRoot
    orderRoot := e'.orderTree.getRoot } := by
  obtain ⟨placed, ot, hplace, -, rfl⟩ := h
  rw [← hplace.state_eq]
  rfl

end Entry.Trades

/-- The order that a side of a trade uses: it is new, or stored. -/
def Ledger.Takes (L : Ledger lv) (supplied : Option Order) (a orderId : ℕ) (order : Order) : Prop :=
  match supplied with
  | some o => order = o ∧ o.filledBuy = 0 ∧ o.filledSell = 0 ∧
      ¬∃ e pos, L o.accountId = some e ∧ e.orderPos o.orderId = some pos
  | none => ∃ e pos, L a = some e ∧ e.orderPos orderId = some pos ∧ order = e.orderAt pos

/-! ## Reading proofs -/

/-- A full proof, read from the ledger. -/
theorem Holds.balanceFullProof_eq (h : Holds s L) (a token : ℕ) :
    s.balanceFullProof a token =
      { leaf := (L.entry a).balanceTree.getLeaf token
        balancePath := ((L.entry a).balanceTree.getProof token).pathElements
        balanceRoot := (L.entry a).balanceTree.getRoot
        accountHash := s.accountTree.getLeaf a
        accountPath := (s.accountTree.getProof a).pathElements
        root := s.root } := by
  rw [GlobalState.balanceFullProof, h.balanceProof_eq]
  rfl

/-! ## Updates of one balance -/

/-- A new key is committed to at once, if there is one. -/
theorem setNewL2Addr_spec (h : Shows s L) {a : ℕ} {e : Entry lv} (he : L a = some e)
    {l2key : Option L2Key} (hr : s.setNewL2Addr a l2key = .ok s') :
    Shows s' (L.set a (e.setNewL2Addr l2key)) := by
  cases l2key with
  | none =>
    rw [GlobalState.setNewL2Addr, Exec.pure_eq_ok_iff] at hr
    rwa [Entry.setNewL2Addr, Ledger.set_eq_self he, ← hr]
  | some l2key =>
    obtain ⟨e', he', h'⟩ := setAccountL2Addr_spec h hr
    obtain rfl := Option.some.inj (he.symm.trans he')
    exact h'

/-- A key update does nothing, or sets the key of an account that had none. -/
theorem keyUpdate_spec (h : Shows s L) {tx : UpdateKeyTx} {r : Except AnyhowError RawTx}
    (hr : s.keyUpdate tx offset = .ok (r, s')) :
    (r.toOption = none ∧ s' = s) ∨
      ¬s.hasAccount tx.accountId ∧ ∃ t,
        (L.entry tx.accountId).balanceTree.setValue 0 0 = .ok t ∧
        Shows s' (L.set tx.accountId
          (((L.entry tx.accountId).setBalanceTree t).commit.setL2Addr tx.l2key.sign tx.l2key.ay)) ∧
        r = .ok (singleRawTx lv .deposit (keyUpdatePayload tx 0 (L.entry tx.accountId).state 0)
          (s.balanceFullProof tx.accountId 0) (L.entry tx.accountId).state s'.root offset) := by
  rw [GlobalState.keyUpdate] at hr
  split at hr
  · rw [Exec.pure_eq_ok_iff, Prod.mk.injEq] at hr
    exact .inl ⟨hr.1 ▸ rfl, hr.2.symm⟩
  · next hacc =>
    -- an account without a key has no balance to read
    have hay : (L.entry tx.accountId).state.ay = 0 :=
      not_not.1 fun hay => hacc ((h.hasAccount_iff _).2 hay)
    have hbal : (L.entry tx.accountId).balance 0 = 0 := by rw [Entry.balance, if_pos hay]
    simp only [h.getAccount_eq, h.getTokenBalance_eq, hbal, Exec.ok_bind, Exec.bind_eq_ok_iff,
      Exec.pure_eq_ok_iff, Prod.mk.injEq] at hr
    obtain ⟨s₁, hs₁, s₂, hs₂, rfl, rfl⟩ := hr
    obtain ⟨t, ht, h₁⟩ := setTokenBalance_spec h hs₁
    obtain ⟨e, he, h₂⟩ := setAccountL2Addr_spec h₁ hs₂
    obtain rfl := Option.some.inj ((L.set_self _ _).symm.trans he)
    rw [L.set_idem] at h₂
    exact .inr ⟨hacc, t, ht, h₂, rfl⟩

/-- A deposit does nothing, or credits the account, which may get its key. -/
theorem deposit_spec (h : Shows s L) {tx : DepositTx} {r : Except AnyhowError RawTx}
    (hr : s.deposit tx offset = .ok (r, s')) :
    (r.toOption = none ∧ s' = s) ∨
      (tx.l2key = none ↔ s.hasAccount tx.accountId) ∧ ∃ t,
        (L.entry tx.accountId).balanceTree.setValue tx.tokenId
          ((L.entry tx.accountId).balance tx.tokenId + tx.amount.toFr) = .ok t ∧
        Shows s' (L.set tx.accountId
          (((L.entry tx.accountId).setBalanceTree t).commit.setNewL2Addr tx.l2key)) ∧
        r = .ok (singleRawTx lv .deposit
          (depositPayload tx (L.entry tx.accountId).state
            ((L.entry tx.accountId).balance tx.tokenId))
          (s.balanceFullProof tx.accountId tx.tokenId) (L.entry tx.accountId).state s'.root
          offset) := by
  rw [GlobalState.deposit] at hr
  split at hr
  · rw [Exec.pure_eq_ok_iff, Prod.mk.injEq] at hr
    exact .inl ⟨hr.1 ▸ rfl, hr.2.symm⟩
  · next hnew =>
    split at hr
    · rw [Exec.pure_eq_ok_iff, Prod.mk.injEq] at hr
      exact .inl ⟨hr.1 ▸ rfl, hr.2.symm⟩
    · next hold =>
      -- the two checks make the key come with the first deposit
      have hkey : tx.l2key = none ↔ s.hasAccount tx.accountId := by
        cases hk : tx.l2key <;> simp_all
      simp only [h.getAccount_eq, h.getTokenBalance_eq, Exec.ok_bind, Exec.bind_eq_ok_iff,
        Exec.pure_eq_ok_iff, Prod.mk.injEq] at hr
      obtain ⟨s₁, hs₁, s₂, hs₂, rfl, rfl⟩ := hr
      obtain ⟨t, ht, h₁⟩ := setTokenBalance_spec h hs₁
      have h₂ := setNewL2Addr_spec h₁ (L.set_self _ _) hs₂
      rw [L.set_idem] at h₂
      exact .inr ⟨hkey, t, ht, h₂, rfl⟩

/-- A withdrawal debits the account, whatever it holds, and increases its nonce. -/
theorem withdraw_spec (h : Shows s L) {tx : WithdrawTx} {rawTx : RawTx}
    (hr : s.withdraw tx offset = .ok (rawTx, s')) :
    ∃ t, (L.entry tx.accountId).balanceTree.setValue tx.tokenId
        ((L.entry tx.accountId).balance tx.tokenId - tx.amount.toFr) = .ok t ∧
      Shows s' (L.set tx.accountId
        (((L.entry tx.accountId).setBalanceTree t).setNonce
          ((L.entry tx.accountId).state.nonce + 1)).commit) ∧
      rawTx = singleRawTx lv .withdraw
        (withdrawPayload tx (L.entry tx.accountId).state ((L.entry tx.accountId).balance tx.tokenId))
        (s.balanceFullProof tx.accountId tx.tokenId) (L.entry tx.accountId).state s'.root offset := by
  simp only [GlobalState.withdraw, h.getAccount_eq, h.getTokenBalance_eq, Exec.ok_bind,
    Exec.bind_eq_ok_iff, Exec.pure_eq_ok_iff, Prod.mk.injEq] at hr
  obtain ⟨s₁, hs₁, s₂, hs₂, rfl, rfl⟩ := hr
  obtain ⟨t, ht, h₁⟩ := setTokenBalance_spec h hs₁
  have h₂ := increaseNonce_spec h₁ (L.set_self _ _) hs₂
  rw [L.set_idem] at h₂
  exact ⟨t, ht, h₂, rfl⟩

/-! ## Transfers -/

/-- Without updates of the orders, a batch only writes balances. -/
theorem Entry.Batch.eq_of_nil {e e' : Entry lv} {u : AccountUpdates} (h : e.Batch u e')
    (hu : u.orderUpdates = []) :
    e' = ((e.putBalances u.balanceUpdates).setNewNonce u.newNonce).commit := by
  obtain ⟨bt, ot, hbt, hot, rfl⟩ := h
  rw [Tree.setValueParallel_eq _ _ (by decide), Except.ok.injEq] at hbt
  rw [hu] at hot
  obtain rfl := Except.ok.inj hot
  obtain rfl := hbt
  rfl

/-- With an update of one order, it also sets its leaf. -/
theorem Entry.Batch.of_singleton {e e' : Entry lv} {u : AccountUpdates} (h : e.Batch u e')
    {pos : ℕ} {hash : Fr} (hu : u.orderUpdates = [(pos, hash)]) (hn : u.newNonce = none) :
    ∃ ot, e.orderTree.setValue pos hash = .ok ot ∧
      e' = ((e.putBalances u.balanceUpdates).setOrderTree ot).commit := by
  obtain ⟨bt, ot, hbt, hot, rfl⟩ := h
  rw [Tree.setValueParallel_eq _ _ (by decide), Except.ok.injEq] at hbt
  rw [hu] at hot
  obtain rfl := hbt
  refine ⟨ot, by simpa [Tree.setValueParallel] using hot, ?_⟩
  rw [hn]
  rfl

/-- The entry of the sender of a transfer. -/
def Entry.send (e : Entry lv) (tx : TransferTx) : Entry lv :=
  ((e.putBalances [(tx.tokenId, e.balance tx.tokenId - tx.amount.toFr)]).setNonce
    (e.state.nonce + 1)).commit

/-- The entry of the receiver of a transfer. -/
def Entry.receive (e : Entry lv) (tx : TransferTx) : Entry lv :=
  (e.putBalances [(tx.tokenId, e.balance tx.tokenId + tx.amount.toFr)]).commit

/-- What a transfer checks: the sender has a key and the funds, the receiver exists. -/
structure Ledger.CanTransfer (L : Ledger lv) (tx : TransferTx) : Prop where
  keyed : ∃ e, L tx.fromId = some e ∧ e.state.ay ≠ 0
  funds : tx.amount.toFr.val ≤ ((L.entry tx.fromId).balance tx.tokenId).val
  receiver : ∃ e, L tx.toId = some e

/-- The balance of the sender, and that of the receiver, as a transfer writes them. -/
def Entry.sent (e : Entry lv) (tx : TransferTx) : ℕ × Fr :=
  (tx.tokenId, e.balance tx.tokenId - tx.amount.toFr)

/-- The balance of the receiver after a transfer, with its token. -/
def Entry.received (e : Entry lv) (tx : TransferTx) : ℕ × Fr :=
  (tx.tokenId, e.balance tx.tokenId + tx.amount.toFr)

/-- The ledger after a transfer. An account on both sides gets both balances, in one
    order or the other. -/
structure Ledger.Transferred (L : Ledger lv) (tx : TransferTx) (s' : GlobalState lv) : Prop where
  ne : tx.fromId ≠ tx.toId → Shows s' ((L.set tx.fromId ((L.entry tx.fromId).send tx)).set tx.toId
    (((L.entry tx.toId).receive tx).setNewL2Addr tx.l2key))
  eq : tx.fromId = tx.toId → ∃ updates,
    (updates = [(L.entry tx.toId).sent tx, (L.entry tx.toId).received tx] ∨
      updates = [(L.entry tx.toId).received tx, (L.entry tx.toId).sent tx]) ∧
    Shows s' (L.set tx.toId ((((L.entry tx.toId).putBalances updates).setNonce
      ((L.entry tx.toId).state.nonce + 1)).commit.setNewL2Addr tx.l2key))

/-- What the raw transaction of a transfer is made of; `s₁` is the state before the
    receiver may get a key. -/
structure Ledger.DescribesTransfer (L : Ledger lv) (tx : TransferTx) (s s₁ s' : GlobalState lv)
    (rawTx : RawTx) : Prop where
  payload : rawTx.payload =
    transferPayload tx (L.entry tx.fromId).state (L.entry tx.toId).state
      ((L.entry tx.fromId).balance tx.tokenId)
      ((L.entry tx.toId).balance tx.tokenId + tx.amount.toFr)
  balancePath0 : rawTx.balancePath0 =
    ((L.entry tx.fromId).balanceTree.getProof tx.tokenId).pathElements
  balancePath1 : rawTx.balancePath1 = (s₁.balanceProof tx.toId tx.tokenId).pathElements
  orderRoot0 : rawTx.orderRoot0 = (L.entry tx.fromId).state.orderRoot
  orderRoot1 : rawTx.orderRoot1 = (L.entry tx.toId).state.orderRoot
  accountPath0 : rawTx.accountPath0 = (s.accountTree.getProof tx.fromId).pathElements
  accountPath1 : rawTx.accountPath1 = (s₁.accountTree.getProof tx.toId).pathElements
  rootBefore : rawTx.rootBefore = s.root
  rootAfter : rawTx.rootAfter = s'.root

/-- Several parallel updates of a balance tree write the leaves one by one. -/
theorem updateAll_two (e : Entry lv) {u v : ℕ × Fr} {bt : Tree lv.balanceLevels}
    (h : e.balanceTree.updateAll [([u], 2), ([v], 2)] = .ok bt) :
    e.setBalanceTree bt = e.putBalances [u, v] := by
  simp only [Tree.updateAll, List.foldlM_cons, List.foldlM_nil,
    Tree.setValueParallel_eq _ _ (show 2 ≠ 1 by decide), Exec.ok_bind, Exec.pure_eq_ok_iff] at h
  rw [← h]
  rfl

/-- A transfer is one that can be made, and is described by its raw transaction. -/
theorem transfer_spec (h : Shows s L) {schedule : Shuffle Task} {tx : TransferTx} {rawTx : RawTx}
    (hr : s.transfer schedule tx offset = .ok (rawTx, s')) :
    L.CanTransfer tx ∧ L.Transferred tx s' ∧ ∃ s₁, s₁.setNewL2Addr tx.toId tx.l2key = .ok s' ∧
      L.DescribesTransfer tx s s₁ s' rawTx := by
  obtain ⟨hfrom, hr⟩ := Exec.assert_bind_eq_ok_iff.1 hr
  obtain ⟨e, he, hay⟩ := h.exists_of_hasAccount hfrom
  simp only [h.getTokenBalance_eq, Exec.ok_bind] at hr
  obtain ⟨hfunds, hr⟩ := Exec.assert_bind_eq_ok_iff.1 hr
  simp only [Exec.bind_eq_ok_iff, Exec.pure_eq_ok_iff, Prod.mk.injEq] at hr
  obtain ⟨s₁, hbatch, s₂, hkey, hraw, rfl⟩ := hr
  have hn : s.getAccountNonce tx.fromId = (L.entry tx.fromId).state.nonce := by
    rw [GlobalState.getAccountNonce, h.getAccount_eq]
  rw [hn] at hbatch
  -- the batch checks that the receiver has trees
  have hreceiver : ∃ f, L tx.toId = some f := by
    rcases eq_or_ne tx.fromId tx.toId with heq | hne
    · exact ⟨e, heq ▸ he⟩
    · obtain ⟨-, f, -, -, -, hf, -⟩ := batchUpdate_pair_spec h hne hbatch
      exact ⟨f, hf⟩
  refine ⟨⟨⟨e, he, hay⟩, hfunds, hreceiver⟩, ⟨fun hne => ?_, fun heq => ?_⟩, s₁, hkey, ?_⟩
  · obtain ⟨e', f, e'', f'', he', hf, hbe, hbf, h₁⟩ := batchUpdate_pair_spec h hne hbatch
    rw [hbe.eq_of_nil rfl, hbf.eq_of_nil rfl] at h₁
    have h' := setNewL2Addr_spec h₁ (Ledger.set_self _ _ _) hkey
    rw [Ledger.set_idem] at h'
    simp only [Ledger.entry_of_some he', Ledger.entry_of_some hf] at h' ⊢
    exact h'
  · obtain ⟨f, bt, hf, hbt, h₁⟩ := batchUpdate_self_spec h heq rfl rfl rfl rfl hbatch
    have h' := setNewL2Addr_spec h₁ (Ledger.set_self _ _ _) hkey
    rw [Ledger.set_idem] at h'
    simp only [heq, Ledger.entry_of_some hf] at hbt h' ⊢
    rcases hbt with hbt | hbt
    · rw [updateAll_two f hbt] at h'
      exact ⟨_, .inl rfl, h'⟩
    · rw [updateAll_two f hbt] at h'
      exact ⟨_, .inr rfl, h'⟩
  · subst hraw
    exact ⟨by simp only [h.getAccount_eq], by simp only [h.balanceFullProof_eq], rfl,
      by simp only [h.getAccount_eq], by simp only [h.getAccount_eq], rfl, rfl, rfl, rfl⟩

/-- A transfer to another account, whose receiver gets no key. -/
theorem transfer_spec_of_ne (h : Shows s L) {schedule : Shuffle Task} {tx : TransferTx}
    {rawTx : RawTx} (hne : tx.fromId ≠ tx.toId) (hkey : tx.l2key = none)
    (hr : s.transfer schedule tx offset = .ok (rawTx, s')) :
    L.CanTransfer tx ∧ L.DescribesTransfer tx s s' s' rawTx ∧
      Shows s' ((L.set tx.fromId ((L.entry tx.fromId).send tx)).set tx.toId
        ((L.entry tx.toId).receive tx)) := by
  obtain ⟨hcan, htrans, s₁, hs₁, hraw⟩ := transfer_spec h hr
  have h' := htrans.ne hne
  rw [hkey, GlobalState.setNewL2Addr, Exec.pure_eq_ok_iff] at hs₁
  subst hs₁
  rw [hkey] at h'
  exact ⟨hcan, hraw, h'⟩

/-! ## Trades -/

/-- An order of a trade is new and unfilled, or one that is stored. -/
theorem takeOrder_spec (h : Shows s L) {supplied : Option Order} {a orderId : ℕ} {name : String}
    {order : Order} (hr : s.takeOrder supplied a orderId name = .ok order) :
    L.Takes supplied a orderId order := by
  cases supplied with
  | some o =>
    obtain ⟨hnew, hr⟩ := Exec.assert_bind_eq_ok_iff.1 hr
    obtain ⟨hbuy, hr⟩ := Exec.assert_bind_eq_ok_iff.1 hr
    obtain ⟨hsell, hr⟩ := Exec.assert_bind_eq_ok_iff.1 hr
    exact ⟨(Exec.pure_eq_ok_iff.1 hr).symm, hbuy, hsell, fun hex => hnew ((h.hasOrder_iff _ _).2 hex)⟩
  | none =>
    obtain ⟨hhas, hr⟩ := Exec.assert_bind_eq_ok_iff.1 hr
    obtain ⟨-, hr⟩ := Exec.assert_bind_eq_ok_iff.1 hr
    obtain ⟨e, pos, he, hpos⟩ := (h.hasOrder_iff _ _).1 hhas
    simp only [GlobalState.getOrderPosById, unwrap, h.lookup_orderIdToPos he, hpos,
      Exec.unwrap_some, Exec.ok_bind, h.getAccountOrderByPos_eq he, Except.ok.injEq] at hr
    exact ⟨e, pos, he, hpos, hr.symm⟩

/-- A trade, seen from the ledger before it: the entries of the two accounts, the
    orders they use and their positions. -/
structure Trade (lv : Levels) where
  e1 : Entry lv
  e2 : Entry lv
  order1 : Order
  order2 : Order
  pos1 : ℕ
  pos2 : ℕ

namespace Trade

variable (T : Trade lv) (t : SpotTradeTx)

/-- The orders after the trade. -/
def new1 : Order := T.order1.tradeWith t.amount1to2 t.amount2to1

/-- The second order after the trade. -/
def new2 : Order := T.order2.tradeWith t.amount2to1 t.amount1to2

/-- The balances written for the two accounts. -/
def updates1 : List (ℕ × Fr) :=
  [(t.tokenId1to2, T.e1.balance t.tokenId1to2 - t.amount1to2),
    (t.tokenId2to1, T.e1.balance t.tokenId2to1 + t.amount2to1)]

/-- The balances of the second account after the trade. -/
def updates2 : List (ℕ × Fr) :=
  [(t.tokenId1to2, T.e2.balance t.tokenId1to2 + t.amount1to2),
    (t.tokenId2to1, T.e2.balance t.tokenId2to1 - t.amount2to1)]

/-- What `fullSpotTrade` checks. -/
structure Accepted (s : GlobalState lv) (L : Ledger lv) (tx : FullSpotTradeTx) : Prop where
  ne : tx.trade.order1AccountId ≠ tx.trade.order2AccountId
  entry1 : L tx.trade.order1AccountId = some T.e1
  entry2 : L tx.trade.order2AccountId = some T.e2
  keyed1 : T.e1.state.ay ≠ 0
  keyed2 : T.e2.state.ay ≠ 0
  taken1 : s.takeOrder tx.makerOrder tx.trade.order1AccountId tx.trade.order1Id "order1" =
    .ok T.order1
  taken2 : s.takeOrder tx.takerOrder tx.trade.order2AccountId tx.trade.order2Id "order2" =
    .ok T.order2
  takes1 : L.Takes tx.makerOrder tx.trade.order1AccountId tx.trade.order1Id T.order1
  takes2 : L.Takes tx.takerOrder tx.trade.order2AccountId tx.trade.order2Id T.order2
  funds1 : tx.trade.amount1to2.val < (T.e1.balance tx.trade.tokenId1to2).val
  funds2 : tx.trade.amount2to1.val < (T.e2.balance tx.trade.tokenId2to1).val

/-- What the raw transaction of a trade is made of; `e1'` and `e2'` are the entries after it. -/
structure Describes (T : Trade lv) (t : SpotTradeTx) (s s' : GlobalState lv) (e1' e2' : Entry lv)
    (rawTx : RawTx) : Prop where
  payload : ∃ amounts1 amounts2, compressTotals (T.new1 t) = .ok amounts1 ∧
    compressTotals (T.new2 t) = .ok amounts2 ∧
    rawTx.payload = spotTradePayload t T.e1.state T.e2.state
    ⟨T.order1, T.pos1, T.e1.orderAt T.pos1⟩ ⟨T.order2, T.pos2, T.e2.orderAt T.pos2⟩
    { acc1Sell := T.e1.balance t.tokenId1to2
      acc1BuyNew := T.e1.balance t.tokenId2to1 + t.amount2to1
      acc2Sell := T.e2.balance t.tokenId2to1
      acc2BuyNew := T.e2.balance t.tokenId1to2 + t.amount1to2 }
    (T.new1 t) (T.new2 t) amounts1 amounts2
  balancePath0 : rawTx.balancePath0 = (T.e1.balanceTree.getProof t.tokenId1to2).pathElements
  balancePath1 : rawTx.balancePath1 = (e2'.balanceTree.getProof t.tokenId1to2).pathElements
  balancePath2 : rawTx.balancePath2 = (T.e2.balanceTree.getProof t.tokenId2to1).pathElements
  balancePath3 : rawTx.balancePath3 = (e1'.balanceTree.getProof t.tokenId2to1).pathElements
  orderPath0 : rawTx.orderPath0 = (T.e1.orderTree.getProof T.pos1).pathElements
  orderPath1 : rawTx.orderPath1 = (T.e2.orderTree.getProof T.pos2).pathElements
  orderRoot0 : rawTx.orderRoot0 = T.e1.state.orderRoot
  orderRoot1 : rawTx.orderRoot1 = e2'.state.orderRoot
  accountPath0 : rawTx.accountPath0 = (s.accountTree.getProof t.order1AccountId).pathElements
  accountPath1 : rawTx.accountPath1 = (s'.accountTree.getProof t.order2AccountId).pathElements
  rootBefore : rawTx.rootBefore = s.root
  rootAfter : rawTx.rootAfter = s'.root

end Trade

/-- The orders of a trade and their positions. -/
theorem placeOrders_spec (h : Shows s L) {tx : FullSpotTradeTx} {e1 e2 : Entry lv}
    (hne : tx.trade.order1AccountId ≠ tx.trade.order2AccountId)
    (he1 : L tx.trade.order1AccountId = some e1) (he2 : L tx.trade.order2AccountId = some e2)
    {order1 order2 old1 old2 : Order} {pos1 pos2 : ℕ}
    (hr : s.placeOrders tx = .ok ((⟨order1, pos1, old1⟩, ⟨order2, pos2, old2⟩), s')) :
    s.takeOrder tx.makerOrder tx.trade.order1AccountId tx.trade.order1Id "order1" = .ok order1 ∧
      s.takeOrder tx.takerOrder tx.trade.order2AccountId tx.trade.order2Id "order2" =
        .ok order2 ∧
      old1 = e1.orderAt pos1 ∧ old2 = e2.orderAt pos2 ∧
      ∃ p1 p2, e1.Finds order1.orderId pos1 p1 ∧ e2.Finds order2.orderId pos2 p2 ∧
        Shows s' ((L.set tx.trade.order1AccountId p1).set tx.trade.order2AccountId p2) := by
  simp only [GlobalState.placeOrders, Exec.bind_eq_ok_iff, Exec.pure_eq_ok_iff, Prod.exists,
    Prod.mk.injEq, PlacedOrder.mk.injEq] at hr
  obtain ⟨_, htake1, _, htake2, _, _, s₁, hfind1, _, _, s₂, hfind2,
    ⟨⟨rfl, rfl, rfl⟩, rfl, rfl, rfl⟩, rfl⟩ := hr
  obtain ⟨hold1, p1, hp1, h₁⟩ := findOrInsertOrder_finds h he1 hfind1
  have he2' : (L.set tx.trade.order1AccountId p1) tx.trade.order2AccountId = some e2 := by
    rw [L.set_of_ne p1 hne.symm, he2]
  obtain ⟨hold2, p2, hp2, h₂⟩ := findOrInsertOrder_finds h₁ he2' hfind2
  exact ⟨htake1, htake2, hold1, hold2, p1, p2, hp1, hp2, h₂⟩

/-- The two entries after a trade, exactly. -/
theorem fullSpotTrade_exact (h : Shows s L) {schedule : Shuffle Task} {tx : FullSpotTradeTx}
    {rawTx : RawTx} (hr : s.fullSpotTrade schedule tx offset = .ok (rawTx, s')) :
    ∃ (T : Trade lv) (e1' e2' : Entry lv), T.Accepted s L tx ∧
      T.e1.TradesAt T.order1 T.pos1 tx.trade.amount1to2 tx.trade.amount2to1 (T.updates1 tx.trade) e1' ∧
      T.e2.TradesAt T.order2 T.pos2 tx.trade.amount2to1 tx.trade.amount1to2 (T.updates2 tx.trade) e2' ∧
      Shows s' ((L.set tx.trade.order1AccountId e1').set tx.trade.order2AccountId e2') ∧
      T.Describes tx.trade s s' e1' e2' rawTx := by
  obtain ⟨hne, hr⟩ := Exec.assert_bind_eq_ok_iff.1 hr
  obtain ⟨hacc1, hr⟩ := Exec.assert_bind_eq_ok_iff.1 hr
  obtain ⟨hacc2, hr⟩ := Exec.assert_bind_eq_ok_iff.1 hr
  obtain ⟨e1, he1, hay1⟩ := h.exists_of_hasAccount hacc1
  obtain ⟨e2, he2, hay2⟩ := h.exists_of_hasAccount hacc2
  obtain ⟨⟨⟨⟨order1, pos1, old1⟩, ⟨order2, pos2, old2⟩⟩, s₂⟩, hplace, hr⟩ :=
    Exec.bind_eq_ok_iff.1 hr
  obtain ⟨htake1, htake2, rfl, rfl, p1, p2, hp1, hp2, h₂⟩ := placeOrders_spec h hne he1 he2 hplace
  have hL1 : ((L.set tx.trade.order1AccountId p1).set tx.trade.order2AccountId p2)
      tx.trade.order1AccountId = some p1 := by rw [Ledger.set_of_ne _ p2 hne, L.set_self]
  have hL2 : ((L.set tx.trade.order1AccountId p1).set tx.trade.order2AccountId p2)
      tx.trade.order2AccountId = some p2 := Ledger.set_self _ _ p2
  simp only [h₂.getTokenBalance_eq, Ledger.entry_of_some hL1, Ledger.entry_of_some hL2,
    hp1.place.balance_eq, hp2.place.balance_eq, GlobalState.orderProof, unwrap,
    h₂.lookup_orderTrees hL1, h₂.lookup_orderTrees hL2, hp1.place.orderTree_eq,
    hp2.place.orderTree_eq, Exec.unwrap_some, Exec.ok_bind, pure_bind] at hr
  obtain ⟨hfunds1, hr⟩ := Exec.assert_bind_eq_ok_iff.1 hr
  obtain ⟨hfunds2, hr⟩ := Exec.assert_bind_eq_ok_iff.1 hr
  simp only [Exec.bind_eq_ok_iff, Exec.pure_eq_ok_iff, Prod.mk.injEq] at hr
  obtain ⟨s₃, hs₃, s₄, hs₄, s₅, hbatch, amounts1, hamounts1, amounts2, hamounts2, hraw, rfl⟩ := hr
  -- The orders are stored, then the trees are updated.
  obtain ⟨h₃, htree₃⟩ := updateOrderState_spec h₂.toHolds hL1 hs₃
  have h₃ := h₂.of_holds hL1 h₃ htree₃ rfl
  rw [Ledger.set_set_set _ hne] at h₃
  obtain ⟨h₄, htree₄⟩ := updateOrderState_spec h₃.toHolds (Ledger.set_self _ _ p2) hs₄
  have h₄ := h₃.of_holds (Ledger.set_self _ _ p2) h₄ htree₄ rfl
  rw [Ledger.set_idem] at h₄
  obtain ⟨q1, q2, e1', e2', hq1, hq2, hb1, hb2, h₅⟩ := batchUpdate_pair_spec h₄ hne hbatch
  rw [Ledger.set_set_set _ hne, Ledger.set_idem] at h₅
  rw [Ledger.set_of_ne _ _ hne, Ledger.set_self, Option.some.injEq] at hq1
  rw [Ledger.set_self, Option.some.injEq] at hq2
  subst hq1 hq2
  obtain ⟨ot1, hot1, he1'⟩ := hb1.of_singleton rfl rfl
  obtain ⟨ot2, hot2, he2'⟩ := hb2.of_singleton rfl rfl
  refine ⟨⟨e1, e2, order1, order2, pos1, pos2⟩, e1', e2',
    ⟨hne, he1, he2, hay1, hay2, htake1, htake2, takeOrder_spec h htake1, takeOrder_spec h htake2,
      hfunds1, hfunds2⟩,
    ⟨p1, ot1, hp1, hp1.place.orderTree_eq ▸ hot1, he1'⟩,
    ⟨p2, ot2, hp2, hp2.place.orderTree_eq ▸ hot2, he2'⟩,
    h₅, ?_⟩
  have hf1 := Ledger.entry_of_some he1
  have hf2 := Ledger.entry_of_some he2
  have hf1' := Ledger.entry_of_some
    ((Ledger.set_of_ne (L.set tx.trade.order1AccountId e1') e2' hne).trans (Ledger.set_self L _ e1'))
  have hf2' := Ledger.entry_of_some
    (Ledger.set_self (L.set tx.trade.order1AccountId e1') tx.trade.order2AccountId e2')
  subst hraw
  refine ⟨⟨amounts1, amounts2, hamounts1, hamounts2, ?_⟩, ?_, ?_, ?_, ?_, rfl, rfl, ?_, ?_, rfl,
    rfl, rfl, rfl⟩
  · simp only [h.getAccount_eq, hf1, hf2]
    rfl
  · simp only [h.balanceFullProof_eq, hf1]
  · simp only [h₅.balanceProof_eq, hf2']
  · simp only [h.balanceFullProof_eq, hf2]
  · simp only [h₅.balanceProof_eq, hf1']
  · simp only [h.getAccount_eq, hf1]
  · simp only [h₅.getAccount_eq, hf2']

/-- A trade changes two entries, and its raw transaction describes them before and after. -/
theorem fullSpotTrade_spec (h : Shows s L) {schedule : Shuffle Task} {tx : FullSpotTradeTx}
    {rawTx : RawTx} (hr : s.fullSpotTrade schedule tx offset = .ok (rawTx, s')) :
    ∃ (T : Trade lv) (e1' e2' : Entry lv), T.Accepted s L tx ∧
      T.e1.Trades T.order1 T.pos1 tx.trade.amount1to2 tx.trade.amount2to1 (T.updates1 tx.trade) e1' ∧
      T.e2.Trades T.order2 T.pos2 tx.trade.amount2to1 tx.trade.amount1to2 (T.updates2 tx.trade) e2' ∧
      Shows s' ((L.set tx.trade.order1AccountId e1').set tx.trade.order2AccountId e2') ∧
      T.Describes tx.trade s s' e1' e2' rawTx := by
  obtain ⟨T, e1', e2', hT, h1, h2, h', hraw⟩ := fullSpotTrade_exact h hr
  exact ⟨T, e1', e2', hT, h1.trades, h2.trades, h', hraw⟩

end Rollup
