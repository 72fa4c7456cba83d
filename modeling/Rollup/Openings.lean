import Rollup.Mirror

/-!
# Openings

A raw transaction holds two openings, of a balance in the tree of an account and
of that account in the account tree: one before and one after the transaction
(`RawTx.opening1`, `RawTx.opening2`). As long as the operations write balances in
range, the balance trees are Merkle trees (`Entry.Sound`), so that folding a value
along a path gives the root of the tree in which it is the leaf
(`Opening.root_eq`); as long as the accounts have keys, what is read is what the
leaves hold (`Ledger.Keyed`). Both openings then verify (`openings_verify`).
-/

namespace Rollup

section Openings

variable [FluidexCommon] {lv : Levels}

/-! ## Sound entries -/

/-- All the trees of the account are Merkle trees. -/
structure Entry.Sound (e : Entry lv) : Prop extends e.Committed where
  balanceTree : e.balanceTree.IsMerkle

namespace Entry

variable {e e' : Entry lv}

/-- A new account is sound. -/
theorem sound_create (lv : Levels) (n : ℕ) : (Entry.create lv n).Sound :=
  ⟨committed_create lv n, (Tree.represents_empty _ _).isMerkle⟩

namespace Sound

/-- The tree of a sound entry represents its leaves. -/
theorem represents (he : e.Sound) : e.balanceTree.Represents e.balanceTree.getLeaf :=
  he.balanceTree.represents

/-- The balance tree after several writes in range. -/
theorem putBalances (he : e.Sound) (updates : List (ℕ × Fr))
    (hu : ∀ u ∈ updates, u.1 < 2 ^ lv.balanceLevels) :
    (e.putBalances updates).balanceTree.Represents (writes updates e.balanceTree.getLeaf) :=
  he.represents.setValueParallel hu (Tree.setValueParallel_eq _ _ (show 2 ≠ 1 by decide))

/-- The changes of the operations in range leave the entry sound. -/
theorem change (he : e.Sound) {op : Op} (hop : op.InRange lv) (h : e.Change op e') : e'.Sound := by
  refine ⟨he.toCommitted.change h, ?_⟩
  cases h with
  | l2Addr _ _ | nonce _ | setOrder _ _ | cancel _ _ => exact he.balanceTree
  | setBalance ht hset => exact (he.represents.setValue (hop _ ht) hset).isMerkle
  | putBalances hu => exact (he.putBalances _ fun u hu' => hop _ (hu u hu')).isMerkle
  | trade hu htrade =>
    rw [htrade.balanceTree_eq]
    exact (he.putBalances _ fun u hu' => hop _ (hu u hu')).isMerkle

/-- A trade of tokens in range leaves the entry sound. -/
theorem trades (he : e.Sound) {order : Order} {pos : ℕ} {sell buy : Fr} {updates : List (ℕ × Fr)}
    (hu : ∀ u ∈ updates, u.1 < 2 ^ lv.balanceLevels)
    (h : e.Trades order pos sell buy updates e') : e'.Sound := by
  refine ⟨he.toCommitted.trades h, ?_⟩
  rw [h.balanceTree_eq]
  exact (he.putBalances _ hu).isMerkle

end Sound

end Entry

/-- Every state reached by operations in range shows a ledger of sound entries. -/
theorem exists_sound {n : Node lv} {allowed : Node lv → Op → Prop} {nTx persistEveryNBlock : ℕ}
    {blockOffset : Option ℕ} (hop : ∀ n op, allowed n op → op.InRange lv)
    (hn : Exec.Reachable Node.step allowed (Node.new lv nTx blockOffset persistEveryNBlock) n) :
    ∃ L, Shows n.state L ∧ ∀ a, (L.entry a).Sound := by
  obtain ⟨L, h, hL⟩ := Node.reachable_ledger (Entry.sound_create lv)
    (fun n op _ _ hallowed he h => he.change (hop n op hallowed) h) hn
  refine ⟨L, h, fun a => ?_⟩
  cases he : L a with
  | none => rw [Ledger.entry, he]; exact Entry.sound_create lv _
  | some e => rw [Ledger.entry_of_some he]; exact hL a e he

/-! ## Openings -/

/-- An opening of a balance, and of the account it belongs to. -/
structure Opening where
  accountId : Fr
  tokenId : Fr
  balance : Fr
  nonce : Fr
  sign : Fr
  ay : Fr
  orderRoot : Fr
  balancePath : List Fr
  accountPath : List Fr

namespace Opening

/-- The root of the balances to which the balance and its path lead. -/
def balanceRoot (o : Opening) : Fr := Merkle.fold Tree.hash2 o.balancePath o.tokenId.val o.balance

/-- The leaf of the account that is opened, with the root of its balances as computed. -/
def account (o : Opening) : AccountState where
  nonce := o.nonce
  sign := o.sign
  balanceRoot := o.balanceRoot
  ay := o.ay
  orderRoot := o.orderRoot

/-- The root of the account tree the opening leads to. -/
def root (o : Opening) : Fr := Merkle.fold Tree.hash2 o.accountPath o.accountId.val o.account.hash

variable {s : GlobalState lv} {L : Ledger lv} {o : Opening} {a token : ℕ}

/-- An opening along the paths of an account leads to the root of the tree in
    which the account is the one it describes. -/
theorem root_eq (h : Shows s L) (ha : a < 2 ^ lv.accountLevels) (hacc : o.accountId = a)
    (hpath : o.accountPath = (s.accountTree.getProof a).pathElements) :
    o.root = Merkle.node Tree.hash2 (Function.update L.leaf a o.account.hash) lv.accountLevels 0 := by
  rw [root, hacc, Fr.val_natCast ha (lv.account_lt.trans (by decide)), hpath, h.accountTree.fold ha]

/-- With another balance, the path leads to the root of the tree with that balance. -/
theorem balanceRoot_eq {t : Tree lv.balanceLevels} {leaf : ℕ → Fr} (ht : t.Represents leaf)
    (htoken : token < 2 ^ lv.balanceLevels) (hid : o.tokenId = token)
    (hpath : o.balancePath = (t.getProof token).pathElements) :
    o.balanceRoot =
      Merkle.node Tree.hash2 (Function.update leaf token o.balance) lv.balanceLevels 0 := by
  rw [balanceRoot, hid, Fr.val_natCast htoken (lv.balance_lt.trans (by decide)), hpath, ht.fold htoken]

/-- The opening describes the account and its balance as they are in the entry. -/
structure Of (o : Opening) (s : GlobalState lv) (a token : ℕ) (e : Entry lv) : Prop where
  accountId : o.accountId = a
  tokenId : o.tokenId = token
  balance : o.balance = e.balanceTree.getLeaf token
  nonce : o.nonce = e.state.nonce
  sign : o.sign = e.state.sign
  ay : o.ay = e.state.ay
  orderRoot : o.orderRoot = e.state.orderRoot
  balancePath : o.balancePath = (e.balanceTree.getProof token).pathElements
  accountPath : o.accountPath = (s.accountTree.getProof a).pathElements

/-- The account of such an opening is that of the entry. -/
theorem Of.account_eq {e : Entry lv} (ho : o.Of s a token e) (he : e.Sound)
    (htoken : token < 2 ^ lv.balanceLevels) : o.account = e.state := by
  have hbal : o.balanceRoot = e.state.balanceRoot := by
    rw [balanceRoot_eq he.represents htoken ho.tokenId ho.balancePath, ho.balance,
      Function.update_eq_self, he.balanceRoot, he.represents.getRoot]
  rw [account, hbal, ho.nonce, ho.sign, ho.ay, ho.orderRoot]

/-- An opening of what the tree holds leads to its root. -/
theorem Of.root_eq {e : Entry lv} (ho : o.Of s a token e) (h : Shows s L) (hentry : L.entry a = e)
    (he : e.Sound) (ha : a < 2 ^ lv.accountLevels) (htoken : token < 2 ^ lv.balanceLevels) :
    o.root = s.root := by
  have hleaf : o.account.hash = L.leaf a := by
    rw [ho.account_eq he htoken, Ledger.leaf, hentry]
  rw [Opening.root_eq h ha ho.accountId ho.accountPath, hleaf, Function.update_eq_self, h.root_eq]

/-- An opening along the same paths of what is written leads to the new root. -/
theorem root_after {s' : GlobalState lv} {e' : Entry lv} {t : Tree lv.balanceLevels}
    (h : Shows s L) (h' : Shows s' (L.set a e')) (he : (L.entry a).Sound)
    (htoken : token < 2 ^ lv.balanceLevels) (hacc : o.accountId = a) (hid : o.tokenId = token)
    (hbal : o.balancePath = ((L.entry a).balanceTree.getProof token).pathElements)
    (hpath : o.accountPath = (s.accountTree.getProof a).pathElements)
    (hset : (L.entry a).balanceTree.setValue token o.balance = .ok t)
    (hstate : e'.state = ⟨o.nonce, o.sign, t.getRoot, o.ay, o.orderRoot⟩) : o.root = s'.root := by
  have hroot : o.balanceRoot = t.getRoot := by
    rw [balanceRoot_eq he.represents htoken hid hbal, (he.represents.setValue htoken hset).getRoot]
  have haccount : o.account = e'.state := by rw [account, hroot, hstate]
  rw [Opening.root_eq h (h'.lt (L.set_self a e')) hacc hpath, haccount, ← L.leaf_set, h'.root_eq]

end Opening

/-! ## Raw transactions -/

namespace RawTx

/-- The opening before the transaction. -/
def opening1 (rawTx : RawTx) : Opening where
  accountId := rawTx.payload .accountId1
  tokenId := rawTx.payload .tokenId1
  balance := rawTx.payload .balance1
  nonce := rawTx.payload .nonce1
  sign := rawTx.payload .sign1
  ay := rawTx.payload .ay1
  orderRoot := rawTx.orderRoot0
  balancePath := rawTx.balancePath0
  accountPath := rawTx.accountPath0

/-- The opening after the transaction. -/
def opening2 (rawTx : RawTx) : Opening where
  accountId := rawTx.payload .accountId2
  tokenId := rawTx.payload .tokenId2
  balance := rawTx.payload .balance2
  nonce := rawTx.payload .nonce2
  sign := rawTx.payload .sign2
  ay := rawTx.payload .ay2
  orderRoot := rawTx.orderRoot1
  balancePath := rawTx.balancePath1
  accountPath := rawTx.accountPath1

/-- The openings that the circuit checks lead to the roots before and after. -/
structure OpeningsVerify (rawTx : RawTx) : Prop where
  before : rawTx.payload .enableBalanceCheck1 ≠ 0 → rawTx.opening1.root = rawTx.rootBefore
  after : rawTx.payload .enableBalanceCheck2 ≠ 0 → rawTx.opening2.root = rawTx.rootAfter

end RawTx

/-! ## Accounts with keys -/

/-- Every account has a key. -/
def Ledger.Keyed (L : Ledger lv) : Prop := ∀ a e, L a = some e → e.state.ay ≠ 0

omit [FluidexCommon] in
/-- An account gets its key with its first balance. -/
theorem Entry.setNewL2Addr_ay {e : Entry lv} {l2key : Option L2Key}
    (hold : l2key = none → e.state.ay ≠ 0) (hnew : ∀ key ∈ l2key, key.ay ≠ 0) :
    (e.setNewL2Addr l2key).state.ay ≠ 0 := by
  cases l2key with
  | none => exact hold rfl
  | some key => exact hnew key rfl

namespace Ledger.Keyed

variable {L : Ledger lv} {a : ℕ} {e : Entry lv}

omit [FluidexCommon] in
theorem set (h : L.Keyed) (he : e.state.ay ≠ 0) : (L.set a e).Keyed := by
  intro b f hf
  rw [Ledger.set_apply] at hf
  split at hf
  · exact Option.some.inj hf ▸ he
  · exact h b f hf

/-- An account that is new has no balance. -/
theorem balance_eq (h : L.Keyed) (a : ℕ) {token : ℕ} (htoken : token < 2 ^ lv.balanceLevels) :
    (L.entry a).balance token = (L.entry a).balanceTree.getLeaf token := by
  cases he : L a with
  | none =>
    rw [Ledger.entry, he]
    exact ((Tree.represents_empty lv.balanceLevels 0).getLeaf htoken).symm
  | some e => rw [Ledger.entry_of_some he, Entry.balance, if_neg (h a e he)]

end Ledger.Keyed

/-! ## The transactions -/

section Transactions

variable {s s' : GlobalState lv} {L : Ledger lv} {offset : Option ℤ}
  (h : Shows s L) (hL : ∀ a, (L.entry a).Sound)
include h hL

/-- The openings of an update of one balance verify if its payload describes the account
    before and after it. -/
theorem singleRawTx_openings {a token : ℕ} {e' : Entry lv} {t : Tree lv.balanceLevels}
    {txType : TxType} {p : Payload} (h' : Shows s' (L.set a e'))
    (htoken : token < 2 ^ lv.balanceLevels)
    (h1 : p .accountId1 = a ∧ p .tokenId1 = token ∧ p .nonce1 = (L.entry a).state.nonce ∧
      p .sign1 = (L.entry a).state.sign ∧ p .ay1 = (L.entry a).state.ay)
    (h2 : p .accountId2 = a ∧ p .tokenId2 = token)
    (hbal : p .balance1 = (L.entry a).balanceTree.getLeaf token)
    (hset : (L.entry a).balanceTree.setValue token (p .balance2) = .ok t)
    (hstate : e'.state =
      ⟨p .nonce2, p .sign2, t.getRoot, p .ay2, (L.entry a).state.orderRoot⟩) :
    (singleRawTx lv txType p (s.balanceFullProof a token) (L.entry a).state s'.root
      offset).OpeningsVerify := by
  obtain ⟨hacc1, hid1, hnonce, hsign, hay⟩ := h1
  have hpath : (s.balanceFullProof a token).balancePath =
      ((L.entry a).balanceTree.getProof token).pathElements :=
    congrArg BalanceProof.balancePath (h.balanceFullProof_eq a token)
  constructor
  · -- before: what the payload says of the account is its entry
    intro _
    exact Opening.Of.root_eq ⟨hacc1, hid1, hbal, hnonce, hsign, hay, rfl, hpath, rfl⟩ h rfl (hL a)
      (h'.lt (L.set_self a e')) htoken
  · intro _
    exact Opening.root_after h h' (hL a) htoken h2.1 h2.2 hpath rfl hset hstate

/-- Both openings of a key update are of the token 0. -/
theorem keyUpdate_openings (hk : L.Keyed) {tx : UpdateKeyTx} {rawTx : RawTx}
    (hr : s.keyUpdate tx offset = .ok (.ok rawTx, s')) : rawTx.OpeningsVerify := by
  have hzero : (0 : ℕ) < 2 ^ lv.balanceLevels := Nat.two_pow_pos _
  rcases keyUpdate_spec h hr with ⟨hnone, -⟩ | ⟨hacc, t, hset, h', hraw⟩
  · cases hnone
  · obtain rfl := Except.ok.inj hraw
    -- the account has no key yet, and its leaf is zero
    have hbal : (0 : Fr) = (L.entry tx.accountId).balanceTree.getLeaf 0 := by
      rw [← hk.balance_eq _ hzero, Entry.balance,
        if_pos (not_not.1 fun hay => hacc ((h.hasAccount_iff _).2 hay))]
    refine singleRawTx_openings h hL h' hzero ⟨rfl, rfl, rfl, rfl, rfl⟩ ⟨rfl, rfl⟩ hbal hset ?_
    simp only [Entry.setL2Addr, Entry.commit, Entry.setBalanceTree, AccountState.updateL2Addr,
      (hL tx.accountId).orderRoot]
    rfl

/-- Both openings of a deposit share one path. -/
theorem deposit_openings (hk : L.Keyed) {tx : DepositTx}
    (htoken : tx.tokenId < 2 ^ lv.balanceLevels) {rawTx : RawTx}
    (hr : s.deposit tx offset = .ok (.ok rawTx, s')) : rawTx.OpeningsVerify := by
  rcases deposit_spec h hr with ⟨hnone, -⟩ | ⟨hnew, t, hset, h', hraw⟩
  · cases hnone
  · obtain rfl := Except.ok.inj hraw
    have hbal := hk.balance_eq tx.accountId htoken
    refine singleRawTx_openings h hL h' htoken ⟨rfl, rfl, rfl, rfl, rfl⟩ ⟨rfl, rfl⟩ hbal hset ?_
    cases hl : tx.l2key <;>
      simp [Entry.setNewL2Addr, Entry.setL2Addr, Entry.commit, Entry.setBalanceTree,
        AccountState.updateL2Addr, (hL tx.accountId).orderRoot, depositPayload, hl]

/-- Both openings of a withdrawal share one path. -/
theorem withdraw_openings {tx : WithdrawTx} (htoken : tx.tokenId < 2 ^ lv.balanceLevels)
    (hacc : s.hasAccount tx.accountId) {rawTx : RawTx}
    (hr : s.withdraw tx offset = .ok (rawTx, s')) : rawTx.OpeningsVerify := by
  obtain ⟨t, hset, h', rfl⟩ := withdraw_spec h hr
  have hbal := Entry.balance_of_keyed ((h.hasAccount_iff _).1 hacc) tx.tokenId
  refine singleRawTx_openings h hL h' htoken ⟨rfl, rfl, rfl, rfl, rfl⟩ ⟨rfl, rfl⟩ hbal hset ?_
  simp only [Entry.setNonce, Entry.commit, Entry.setBalanceTree, AccountState.updateNonce,
    (hL tx.accountId).orderRoot]
  rfl

omit h in
theorem sound_receive {tx : TransferTx} (htoken : tx.tokenId < 2 ^ lv.balanceLevels) :
    ((L.entry tx.toId).receive tx).Sound := by
  have hchange : (L.entry tx.toId).Change (.transfer .id tx none) ((L.entry tx.toId).receive tx) :=
    .putBalances (by simp [Op.tokens])
  exact (hL tx.toId).change (by simpa [Op.InRange, Op.tokens]) hchange

omit h hL in
/-- The opening before a transfer is of the balance of the sender. -/
theorem Ledger.DescribesTransfer.opening1_of {tx : TransferTx} {s₁ : GlobalState lv} {rawTx : RawTx}
    (hraw : L.DescribesTransfer tx s s₁ s' rawTx) (hay : (L.entry tx.fromId).state.ay ≠ 0) :
    rawTx.opening1.Of s tx.fromId tx.tokenId (L.entry tx.fromId) := by
  have hpay := hraw.payload
  refine ⟨?_, ?_, ?_, ?_, ?_, ?_, hraw.orderRoot0, hraw.balancePath0, hraw.accountPath0⟩ <;>
    simp only [RawTx.opening1, hpay, transferPayload, Entry.balance_of_keyed hay]

omit h in
/-- The opening after a transfer is of the balance of the receiver. -/
theorem Ledger.DescribesTransfer.opening2_of {tx : TransferTx} {rawTx : RawTx}
    (hraw : L.DescribesTransfer tx s s' s' rawTx) (hkey : tx.l2key = none)
    (htoken : tx.tokenId < 2 ^ lv.balanceLevels)
    (h' : Shows s' ((L.set tx.fromId ((L.entry tx.fromId).send tx)).set tx.toId
      ((L.entry tx.toId).receive tx))) :
    rawTx.opening2.Of s' tx.toId tx.tokenId ((L.entry tx.toId).receive tx) := by
  have hpay := hraw.payload
  have hentry := Ledger.entry_of_some (Ledger.set_self
    (L.set tx.fromId ((L.entry tx.fromId).send tx)) tx.toId ((L.entry tx.toId).receive tx))
  have hleaf : ((L.entry tx.toId).receive tx).balanceTree.getLeaf tx.tokenId =
      (L.entry tx.toId).balance tx.tokenId + tx.amount.toFr :=
    ((L.entry tx.toId).getLeaf_putBalances _ htoken).trans (by simp)
  refine ⟨?_, ?_, ?_, ?_, ?_, ?_, ?_, ?_, hraw.accountPath1⟩
  · simp only [RawTx.opening2, hpay, transferPayload]
  · simp only [RawTx.opening2, hpay, transferPayload]
  · simp only [RawTx.opening2, hpay, transferPayload, hleaf]
  · simp only [RawTx.opening2, hpay, transferPayload]
    rfl
  · simp only [RawTx.opening2, hpay, transferPayload, hkey]
    rfl
  · simp only [RawTx.opening2, hpay, transferPayload, hkey]
    rfl
  · exact hraw.orderRoot1.trans (hL tx.toId).orderRoot
  · exact hraw.balancePath1.trans (by rw [h'.balanceProof_eq, hentry])

/-- The second opening of a transfer is taken after the update. -/
theorem transfer_openings {schedule : Shuffle Task} {tx : TransferTx}
    (htoken : tx.tokenId < 2 ^ lv.balanceLevels) (hne : tx.fromId ≠ tx.toId)
    (hkey : tx.l2key = none) {rawTx : RawTx}
    (hr : s.transfer schedule tx offset = .ok (rawTx, s')) : rawTx.OpeningsVerify := by
  obtain ⟨hcan, hraw, h'⟩ := transfer_spec_of_ne h hne hkey hr
  obtain ⟨e, he, hay⟩ := hcan.keyed
  rw [← Ledger.entry_of_some he] at hay
  refine ⟨fun _ => ?_, fun _ => ?_⟩
  · rw [hraw.rootBefore]
    exact (hraw.opening1_of hay).root_eq h rfl (hL _) (h.lt he) htoken
  · rw [hraw.rootAfter]
    exact (hraw.opening2_of hL hkey htoken h').root_eq h'
      (Ledger.entry_of_some (Ledger.set_self _ _ _)) (sound_receive hL htoken)
      (h'.lt (Ledger.set_self _ _ _)) htoken

/-- The orders of a trade sell and buy its tokens. -/
def FullSpotTradeTx.OrdersMatch (tx : FullSpotTradeTx) (s : GlobalState lv) : Prop :=
  (∀ order, s.takeOrder tx.makerOrder tx.trade.order1AccountId tx.trade.order1Id "order1" = .ok order →
    order.tokenSell = tx.trade.tokenId1to2 ∧ order.tokenBuy = tx.trade.tokenId2to1) ∧
  ∀ order, s.takeOrder tx.takerOrder tx.trade.order2AccountId tx.trade.order2Id "order2" = .ok order →
    order.tokenSell = tx.trade.tokenId2to1 ∧ order.tokenBuy = tx.trade.tokenId1to2

omit h hL in
/-- The opening before a trade is of the balance the first account sells from. -/
theorem Trade.Describes.opening1_of {T : Trade lv} {t : SpotTradeTx} {e1' e2' : Entry lv}
    {rawTx : RawTx} (hraw : T.Describes t s s' e1' e2' rawTx)
    (htok : T.order1.tokenSell = t.tokenId1to2) (hay : T.e1.state.ay ≠ 0) :
    rawTx.opening1.Of s t.order1AccountId t.tokenId1to2 T.e1 := by
  obtain ⟨amounts1, amounts2, -, -, hpay⟩ := hraw.payload
  refine ⟨?_, ?_, ?_, ?_, ?_, ?_, hraw.orderRoot0, hraw.balancePath0, hraw.accountPath0⟩
  · simp only [RawTx.opening1, hpay, spotTradePayload]
  · simp only [RawTx.opening1, hpay, spotTradePayload]
    exact htok
  · simp only [RawTx.opening1, hpay, spotTradePayload, Entry.balance_of_keyed hay]
  · simp only [RawTx.opening1, hpay, spotTradePayload]
  · simp only [RawTx.opening1, hpay, spotTradePayload]
  · simp only [RawTx.opening1, hpay, spotTradePayload]

omit h hL in
/-- The opening after a trade is of the balance the second account buys into. -/
theorem Trade.Describes.opening2_of {T : Trade lv} {t : SpotTradeTx} {e1' e2' : Entry lv}
    {rawTx : RawTx} (hraw : T.Describes t s s' e1' e2' rawTx)
    (htok : T.order2.tokenBuy = t.tokenId1to2)
    (h2 : T.e2.Trades T.order2 T.pos2 t.amount2to1 t.amount1to2 (T.updates2 t) e2')
    (htoken : t.tokenId1to2 < 2 ^ lv.balanceLevels) (hne : t.tokenId1to2 ≠ t.tokenId2to1) :
    rawTx.opening2.Of s' t.order2AccountId t.tokenId1to2 e2' := by
  obtain ⟨amounts1, amounts2, -, -, hpay⟩ := hraw.payload
  have hleaf : e2'.balanceTree.getLeaf t.tokenId1to2 =
      T.e2.balance t.tokenId1to2 + t.amount1to2 := by
    rw [h2.balanceTree_eq, Entry.getLeaf_putBalances _ _ htoken]
    simp [Trade.updates2, hne]
  have hstate := h2.state_eq
  refine ⟨?_, ?_, ?_, ?_, ?_, ?_, hraw.orderRoot1, hraw.balancePath1, hraw.accountPath1⟩
  · simp only [RawTx.opening2, hpay, spotTradePayload]
  · simp only [RawTx.opening2, hpay, spotTradePayload]
    exact htok
  · simp only [RawTx.opening2, hpay, spotTradePayload, hleaf]
  · simp only [RawTx.opening2, hpay, spotTradePayload, hstate]
  · simp only [RawTx.opening2, hpay, spotTradePayload, hstate]
  · simp only [RawTx.opening2, hpay, spotTradePayload, hstate]

/-- The second opening of a trade is taken after the update. -/
theorem fullSpotTrade_openings {schedule : Shuffle Task} {tx : FullSpotTradeTx}
    (htoken : tx.trade.tokenId1to2 < 2 ^ lv.balanceLevels)
    (htoken' : tx.trade.tokenId2to1 < 2 ^ lv.balanceLevels)
    (hne : tx.trade.tokenId1to2 ≠ tx.trade.tokenId2to1) (hmatch : tx.OrdersMatch s)
    {rawTx : RawTx} (hr : s.fullSpotTrade schedule tx offset = .ok (rawTx, s')) :
    rawTx.OpeningsVerify := by
  obtain ⟨T, e1', e2', hT, h1, h2, h', hraw⟩ := fullSpotTrade_spec h hr
  have hentry1 := Ledger.entry_of_some hT.entry1
  have hentry2 := Ledger.entry_of_some hT.entry2
  refine ⟨fun _ => ?_, fun _ => ?_⟩
  · rw [hraw.rootBefore]
    exact (hraw.opening1_of (hmatch.1 _ hT.taken1).1 hT.keyed1).root_eq h hentry1 (hentry1 ▸ hL _)
      (h.lt hT.entry1) htoken
  · rw [hraw.rootAfter]
    have hsound : e2'.Sound :=
      (hentry2 ▸ hL tx.trade.order2AccountId).trades
        (by simp [Trade.updates2, htoken, htoken']) h2
    exact (hraw.opening2_of (hmatch.2 _ hT.taken2).2 h2 htoken hne).root_eq h'
      (Ledger.entry_of_some (Ledger.set_self _ _ _)) hsound (h'.lt (Ledger.set_self _ _ _)) htoken

end Transactions

/-! ## The runs -/

/-- The transactions whose openings verify: the accounts get a key with their first
    balance, the sender of a transfer is not its receiver, and a trade is about two
    tokens, those of its orders. -/
def Op.Standard (s : GlobalState lv) : Op → Prop
  | .keyUpdate tx _ => tx.l2key.ay ≠ 0
  | .deposit tx _ => tx.tokenId < 2 ^ lv.balanceLevels ∧ ∀ l2key ∈ tx.l2key, l2key.ay ≠ 0
  | .withdraw tx _ => tx.tokenId < 2 ^ lv.balanceLevels ∧ s.hasAccount tx.accountId
  | .transfer _ tx _ => tx.tokenId < 2 ^ lv.balanceLevels ∧ tx.fromId ≠ tx.toId ∧
      s.hasAccount tx.fromId ∧ s.hasAccount tx.toId ∧ tx.l2key = none
  | .fullSpotTrade _ tx _ => tx.trade.tokenId1to2 < 2 ^ lv.balanceLevels ∧
      tx.trade.tokenId2to1 < 2 ^ lv.balanceLevels ∧
      tx.trade.tokenId1to2 ≠ tx.trade.tokenId2to1 ∧ tx.OrdersMatch s
  | .cancelOrder _ _ | .nop | .flushWithNop | .popAllBlocks => True
  | _ => False

instance (s : GlobalState lv) (tx : FullSpotTradeTx) : Decidable (tx.OrdersMatch s) :=
  inferInstanceAs (Decidable (_ ∧ _))

instance (s : GlobalState lv) (op : Op) : Decidable (op.Standard s) :=
  match op with
  | .keyUpdate _ _ => inferInstanceAs (Decidable (_ ≠ _))
  | .deposit _ _ | .withdraw _ _ | .transfer _ _ _ | .fullSpotTrade _ _ _ =>
    inferInstanceAs (Decidable (_ ∧ _))
  | .cancelOrder _ _ | .nop | .flushWithNop | .popAllBlocks => .isTrue trivial
  | .createNewAccount _ | .setAccountL2Addr _ _ _ | .setAccountNonce _ _ | .setAccountOrder _ _ _
  | .setTokenBalance _ _ _ => .isFalse id

theorem Op.Standard.inRange {s : GlobalState lv} {op : Op} (h : op.Standard s) : op.InRange lv := by
  cases op with
  | keyUpdate tx offset => simp [Op.InRange, Op.tokens]
  | deposit tx offset => simpa [Op.InRange, Op.tokens] using h.1
  | withdraw tx offset => simpa [Op.InRange, Op.tokens] using h.1
  | transfer schedule tx offset => simpa [Op.InRange, Op.tokens] using h.1
  | fullSpotTrade schedule tx offset => simpa [Op.InRange, Op.tokens] using ⟨h.1, h.2.1⟩
  | createNewAccount _ | setAccountL2Addr _ _ _ | setAccountNonce _ _ | setAccountOrder _ _ _
  | setTokenBalance _ _ _ => exact h.elim
  | cancelOrder _ _ | nop | flushWithNop | popAllBlocks => simp [Op.InRange, Op.tokens]

/-- Nothing is opened by a transaction without effect. -/
theorem nopTx_openings (s : GlobalState lv) : s.nopTx.OpeningsVerify :=
  ⟨fun h => absurd rfl h, fun h => absurd rfl h⟩

variable {s s' : GlobalState lv} {L : Ledger lv} {op : Op} {raw : Option RawTx}

/-- The accounts keep having keys. -/
theorem apply_keyed (h : Shows s L) (hk : L.Keyed) (hop : op.Standard s)
    (hr : s.apply op = .ok (raw, s')) : ∃ L', Shows s' L' ∧ L'.Keyed := by
  cases GlobalState.applied hr with
  | createNewAccount _ | setAccountL2Addr _ | setAccountNonce _ | setAccountOrder _
  | setTokenBalance _ => exact hop.elim
  | keyUpdate hr =>
    rcases keyUpdate_spec h hr with ⟨-, rfl⟩ | ⟨-, t, -, h', -⟩
    · exact ⟨L, h, hk⟩
    · exact ⟨_, h', hk.set hop⟩
  | deposit hr =>
    rcases deposit_spec h hr with ⟨-, rfl⟩ | ⟨hnew, t, -, h', -⟩
    · exact ⟨L, h, hk⟩
    · exact ⟨_, h', hk.set (Entry.setNewL2Addr_ay
        (fun hl => ((h.hasAccount_iff _).1 (hnew.1 hl) :)) hop.2)⟩
  | transfer hr =>
    obtain ⟨-, hne, hfrom, hto, hkey⟩ := hop
    -- Both accounts had keys, and keep them.
    obtain ⟨-, -, h'⟩ := transfer_spec_of_ne h hne hkey hr
    exact ⟨_, h', Ledger.Keyed.set (hk.set ((h.hasAccount_iff _).1 hfrom :))
      ((h.hasAccount_iff _).1 hto :)⟩
  | withdraw hr =>
    obtain ⟨t, -, h', -⟩ := withdraw_spec h hr
    exact ⟨_, h', hk.set ((h.hasAccount_iff _).1 hop.2 :)⟩
  | fullSpotTrade hr =>
    obtain ⟨T, e1', e2', hT, h1, h2, h', -⟩ := fullSpotTrade_spec h hr
    have hay1 : e1'.state.ay ≠ 0 := by rw [h1.state_eq]; exact hT.keyed1
    have hay2 : e2'.state.ay ≠ 0 := by rw [h2.state_eq]; exact hT.keyed2
    exact ⟨_, h', (hk.set hay1).set hay2⟩
  | cancelOrder hr =>
    obtain ⟨e, pos, order, he, -, -, h'⟩ := cancelOrder_spec h hr
    -- Cancelling an order does not touch the key.
    exact ⟨_, h', hk.set (hk _ e he)⟩
  | nop | flushWithNop | popAllBlocks => exact ⟨L, h, hk⟩

/-- Whatever an operation emits, its openings verify. -/
theorem apply_openings (h : Shows s L) (hk : L.Keyed) (hL : ∀ a, (L.entry a).Sound)
    (hop : op.Standard s) {rawTx : RawTx} (hr : s.apply op = .ok (some rawTx, s')) :
    rawTx.OpeningsVerify := by
  generalize hraw : some rawTx = raw at hr
  cases GlobalState.applied hr with
  | createNewAccount _ | setAccountL2Addr _ | setAccountNonce _ | setAccountOrder _
  | setTokenBalance _ => exact hop.elim
  | keyUpdate hr =>
    obtain rfl := Exec.toOption_eq_some_iff.1 hraw.symm
    exact keyUpdate_openings h hL hk hr
  | deposit hr =>
    obtain rfl := Exec.toOption_eq_some_iff.1 hraw.symm
    exact deposit_openings h hL hk hop.1 hr
  | transfer hr =>
    obtain ⟨htoken, hne, -, -, hkey⟩ := hop
    obtain rfl := Option.some.inj hraw
    exact transfer_openings h hL htoken hne hkey hr
  | withdraw hr =>
    obtain rfl := Option.some.inj hraw
    exact withdraw_openings h hL hop.1 hop.2 hr
  | fullSpotTrade hr =>
    obtain ⟨htoken, htoken', hne, hmatch⟩ := hop
    obtain rfl := Option.some.inj hraw
    exact fullSpotTrade_openings h hL htoken htoken' hne hmatch hr
  | nop =>
    obtain rfl := Option.some.inj hraw
    exact nopTx_openings s
  | cancelOrder _ | flushWithNop | popAllBlocks => cases hraw

/-- The openings of all the raw transactions emitted in a run of such transactions verify. -/
theorem openings_verify {n : Node lv} {nTx persistEveryNBlock : ℕ} {blockOffset : Option ℕ}
    (hn : Exec.Reachable Node.step (fun n op => op.Standard n.state)
      (Node.new lv nTx blockOffset persistEveryNBlock) n) :
    ∀ rawTx ∈ n.emitted, rawTx.OpeningsVerify := by
  suffices hinv : (∃ L, Shows n.state L ∧ L.Keyed) ∧ ∀ rawTx ∈ n.emitted, rawTx.OpeningsVerify from
    hinv.2
  refine hn.invariant
    ⟨⟨_, shows_new lv, fun _ _ he => by cases he⟩, fun _ hraw => by cases hraw⟩ ?_
  rintro m op m' hm ⟨⟨L, h, hk⟩, hver⟩ hop hst
  obtain ⟨L', h', hL⟩ := exists_sound (fun _ _ hop => hop.inRange) hm
  obtain rfl := h.toHolds.unique h'.toHolds
  obtain ⟨raw, hr⟩ := Node.step_state hst
  refine ⟨apply_keyed h hk hop hr, fun rawTx hraw => ?_⟩
  rcases Node.mem_emitted hst hraw with hraw | rfl | hr
  · exact hver rawTx hraw
  · exact nopTx_openings _
  · exact apply_openings h hk hL hop hr

end Openings

/-- Two accounts, and one transaction of every kind. -/
def standardOps : List Op :=
  [.keyUpdate ⟨0, ⟨1, 1, 5⟩⟩ none, .deposit ⟨1, 0, 50, some ⟨2, 0, 6⟩⟩ none,
    .deposit ⟨0, 1, 90, none⟩ none, .transfer .id ⟨0, 1, 1, 20, 0, .default, none⟩ none,
    .withdraw ⟨1, 0, 10, 0, 50, .default⟩ none,
    .fullSpotTrade .reverse ⟨⟨0, 1, 1, 0, 5, 6, 3, 4⟩,
      some { Order.default with orderId := 3, tokenSell := 1, totalSell := 10 },
      some { Order.default with accountId := 1, orderId := 4, tokenBuy := 1, totalBuy := 5 }⟩ none,
    .cancelOrder 0 3, .nop]

attribute [local instance] FluidexCommon.sample in
/-- A run with every kind of transaction. -/
theorem openings_verify_standardOps :
    ∃ n, Exec.run Node.step (Node.new Levels.small 2 none 9) standardOps = .ok n ∧
      ∀ rawTx ∈ n.emitted, rawTx.OpeningsVerify := by
  obtain ⟨n, hn⟩ := Exec.exists_eq_ok (Exec.run
    (Exec.guarded Node.step (.explicit "not allowed") fun n op => op.Standard n.state)
    (Node.new Levels.small 2 none 9) standardOps) (by decide +kernel)
  obtain ⟨hn, hrun⟩ := Exec.Reachable.init.of_guarded hn
  exact ⟨n, hrun, openings_verify hn⟩

end Rollup
