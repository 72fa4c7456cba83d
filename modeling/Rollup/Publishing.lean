import Rollup.Decoding
import Rollup.Openings

/-!
# Putting transactions in blocks

A transaction is accepted when the state is changed, and encoded when its block is
popped. What is accepted has a heading and fields that fit, with one exception: a
trade that completes none of its orders has no heading, and its block can never be
forged (`forgeBlocks_ok_iff`).
-/

namespace Rollup

section Publishing

variable [FluidexCommon] {lv : Levels} {e : TxDataEncoder} {tx : RawTx} {txs : List RawTx}

/-! ## Forging -/

/-- The transaction can be encoded. -/
def RawTx.Publishable (tx : RawTx) (e : TxDataEncoder) : Prop := ∃ r, tx.WritesRecord e r

/-- A block can be forged if there are transactions and each of them can be encoded. -/
theorem forgeWithTxs_ok_iff (he : e.Sized) (htxs : ∀ tx ∈ txs, tx.txType ≠ .placeOrder)
    {blockId : ℕ} : (∃ block, forgeWithTxs blockId txs (e.holding []) = .ok (block, e.holding [])) ↔
      txs ≠ [] ∧ ∀ tx ∈ txs, tx.Publishable e := by
  constructor
  · rintro ⟨block, hr⟩
    simp only [forgeWithTxs, Exec.bind_eq_ok_iff, Exec.unwrap_eq_ok_iff] at hr
    obtain ⟨e₁, hall, oldRoot, hold, -⟩ := hr
    obtain ⟨records, hrecords, -⟩ := (encodeAll_eq_ok_iff he htxs (Nat.zero_mod _)).1 hall
    refine ⟨fun hnil => ?_, fun tx htx => ?_⟩
    · rw [hnil] at hold
      cases hold
    · obtain ⟨i, hi⟩ := List.mem_iff_getElem?.1 htx
      obtain ⟨r, -, hr⟩ := Bits.exists_getElem?_of_forall₂ hrecords hi
      exact ⟨r, hr⟩
  · rintro ⟨hne, hall⟩
    -- Each transaction has its record; together they are the public data.
    obtain ⟨records, hrecords⟩ := Bits.exists_forall₂ hall
    have hencode : encodeAll txs (e.holding []) = .ok (e.holding ([] ++ records.flatten)) :=
      (encodeAll_eq_ok_iff he htxs (Nat.zero_mod _)).2 ⟨records, hrecords, rfl⟩
    obtain ⟨tx, txs, rfl⟩ := List.exists_cons_of_ne_nil hne
    have hlast : (((tx :: txs).map RawTx.rootAfter).getLast?).isSome :=
      List.getLast?_isSome.2 (List.cons_ne_nil _ _)
    obtain ⟨newRoot, hnew⟩ := Option.isSome_iff_exists.1 hlast
    rw [forgeWithTxs, hencode, Exec.ok_bind, hnew]
    exact ⟨_, rfl⟩

/-- After a block, the encoder holds nothing. -/
theorem forgeWithTxs_encoder (he : e.Sized) (htxs : ∀ tx ∈ txs, tx.txType ≠ .placeOrder)
    {blockId : ℕ} {block : L2Block} {e' : TxDataEncoder}
    (hr : forgeWithTxs blockId txs (e.holding []) = .ok (block, e')) : e' = e.holding [] := by
  simp only [forgeWithTxs, Exec.bind_eq_ok_iff, Exec.unwrap_eq_ok_iff, Exec.pure_eq_ok_iff,
    Prod.mk.injEq] at hr
  obtain ⟨e₁, hall, -, -, -, -, -, rfl⟩ := hr
  exact (encodeAll_publicRecords he htxs hall).2

namespace ManagerWrapper

variable {m m' : ManagerWrapper lv}

/-- The loop of `forgeBlocks`, with the final value of `i`; `fuel` bounds its length. -/
def forgeLoop (m : ManagerWrapper lv) (i : ℕ) : (fuel : ℕ) →
    Except Panic ((List L2Block × ℕ) × ManagerWrapper lv)
  | 0 => pure (([], i), m)
  | fuel + 1 =>
    if i + m.nTx ≤ m.bufferedTxs.length then do
      let (block, encoder) ← forgeWithTxs m.blockGenerateNum (m.blockTxs i) m.txDataEncoder
      let ((blocks, i), m) ← (m.nextBlock encoder).forgeLoop (i + m.nTx) fuel
      pure ((block :: blocks, i), m)
    else pure (([], i), m)

/-- `pop_all_blocks` without the feature `persist_sled`. -/
def forgeBlocks (m : ManagerWrapper lv) : Except Panic (List L2Block × ManagerWrapper lv) := do
  let ((blocks, i), m) ← m.forgeLoop 0 (m.bufferedTxs.length + 1)
  pure (blocks, { m with bufferedTxs := m.bufferedTxs.drop i })

/-- Persisting aside, popping is forging. -/
theorem popLoop_forges {persistEveryNBlock i fuel j : ℕ} {blocks : List L2Block}
    {snapshots : List (Snapshot lv)}
    (hr : m.popLoop persistEveryNBlock i fuel = .ok ((blocks, snapshots, j), m')) :
    m.forgeLoop i fuel = .ok ((blocks, j), m') := by
  induction fuel generalizing m i blocks snapshots with
  | zero =>
    simp only [popLoop, Exec.pure_eq_ok_iff, Prod.mk.injEq] at hr
    obtain ⟨⟨rfl, -, rfl⟩, rfl⟩ := hr
    rfl
  | succ fuel ih =>
    rw [popLoop] at hr
    rw [forgeLoop]
    split at hr
    · next hle =>
      simp only [Exec.bind_eq_ok_iff, Prod.exists, Exec.pure_eq_ok_iff, Prod.mk.injEq] at hr
      -- the snapshots are left out
      obtain ⟨block, encoder, hforge, _, -, blocks', snapshots', j', m₁, hr, ⟨rfl, -, rfl⟩, rfl⟩ := hr
      have hloop := ih (m := m.nextBlock encoder) hr
      change (m.nextBlock encoder).forgeLoop (i + m.nTx) fuel = _ at hloop
      rw [if_pos hle, hforge, Exec.ok_bind]
      dsimp only
      rw [hloop]
      rfl
    · next hlt =>
      simp only [Exec.pure_eq_ok_iff, Prod.mk.injEq] at hr
      obtain ⟨⟨rfl, -, rfl⟩, rfl⟩ := hr
      rw [if_neg hlt]
      rfl

/-- The blocks that are popped are the blocks that are forged. -/
theorem popAllBlocks_forges {persistEveryNBlock : ℕ} {blocks : List L2Block}
    {snapshots : List (Snapshot lv)}
    (hr : m.popAllBlocks persistEveryNBlock = .ok ((blocks, snapshots), m')) :
    m.forgeBlocks = .ok (blocks, m') := by
  simp only [popAllBlocks, Exec.bind_eq_ok_iff, Prod.exists, Exec.pure_eq_ok_iff,
    Prod.mk.injEq] at hr
  obtain ⟨blocks, snapshots, j, m₁, hr, ⟨rfl, -⟩, rfl⟩ := hr
  rw [forgeBlocks, popLoop_forges hr]
  rfl

/-- The manager can encode: its encoder holds nothing, and its transactions have schemes. -/
structure Encodes (m : ManagerWrapper lv) (e : TxDataEncoder) : Prop where
  sized : e.Sized
  encoder : m.txDataEncoder = e.holding []
  txType_ne : ∀ tx ∈ m.bufferedTxs, tx.txType ≠ .placeOrder

namespace Encodes

variable (h : m.Encodes e)
include h

omit [FluidexCommon] in
theorem blockTxs_ne (i : ℕ) : ∀ tx ∈ m.blockTxs i, tx.txType ≠ .placeOrder :=
  fun tx htx => h.txType_ne tx (List.mem_of_mem_drop (List.mem_of_mem_take htx))

omit [FluidexCommon] in
/-- The next block starts with an empty encoder. -/
theorem nextBlock : (m.nextBlock (e.holding [])).Encodes e := ⟨h.sized, rfl, h.txType_ne⟩

/-- Every block that fits in the buffer is forged, or none is popped. -/
theorem forgeLoop_ok_iff (hnTx : 0 < m.nTx) {i fuel : ℕ} : (∃ r, m.forgeLoop i fuel = .ok r) ↔
    ∀ k < fuel, i + (k + 1) * m.nTx ≤ m.bufferedTxs.length →
      ∀ tx ∈ m.blockTxs (i + k * m.nTx), tx.Publishable e := by
  induction fuel generalizing m i with
  | zero => exact ⟨fun _ _ hk => absurd hk (Nat.not_lt_zero _), fun _ => ⟨_, rfl⟩⟩
  | succ fuel ih =>
    have hnext (k : ℕ) : i + m.nTx + k * m.nTx = i + (k + 1) * m.nTx := by ring
    rw [forgeLoop]
    split
    · next hle =>
      -- the first block, and those after it
      have hrest : (∃ r, (m.nextBlock (e.holding [])).forgeLoop (i + m.nTx) fuel = .ok r) ↔
          ∀ k < fuel, i + (k + 1 + 1) * m.nTx ≤ m.bufferedTxs.length →
            ∀ tx ∈ m.blockTxs (i + (k + 1) * m.nTx), tx.Publishable e := by
        simp only [← hnext]
        exact ih h.nextBlock hnTx
      have hfirst : (∃ block, forgeWithTxs m.blockGenerateNum (m.blockTxs i) (e.holding []) =
            .ok (block, e.holding [])) ↔
          m.blockTxs i ≠ [] ∧ ∀ tx ∈ m.blockTxs i, tx.Publishable e :=
        forgeWithTxs_ok_iff h.sized (h.blockTxs_ne i)
      -- a block is not empty
      have hblock : m.blockTxs i ≠ [] := by
        refine List.ne_nil_of_length_pos ?_
        rw [blockTxs, List.length_take, List.length_drop]
        omega
      constructor
      · rintro ⟨r, hr⟩
        simp only [Exec.bind_eq_ok_iff, Prod.exists] at hr
        obtain ⟨block, encoder, hforge, blocks, j, m₁, hr, -⟩ := hr
        rw [h.encoder] at hforge
        obtain rfl := forgeWithTxs_encoder h.sized (h.blockTxs_ne i) hforge
        intro k hk hlen tx htx
        cases k with
        | zero =>
          rw [Nat.zero_mul, Nat.add_zero] at htx
          exact (hfirst.1 ⟨block, hforge⟩).2 tx htx
        | succ k => exact hrest.1 ⟨_, hr⟩ k (Nat.lt_of_succ_lt_succ hk) hlen tx htx
      · intro hall
        have hall₀ := hall 0 fuel.succ_pos (by rwa [Nat.zero_add, Nat.one_mul])
        rw [Nat.zero_mul, Nat.add_zero] at hall₀
        obtain ⟨block, hforge⟩ := hfirst.2 ⟨hblock, hall₀⟩
        obtain ⟨r, hr⟩ := hrest.2 fun k hk => hall (k + 1) (Nat.succ_lt_succ hk)
        rw [h.encoder, hforge, Exec.ok_bind]
        dsimp only
        rw [hr]
        exact ⟨_, rfl⟩
    · next hlt =>
      refine ⟨fun _ k _ hlen => absurd hlen ?_, fun _ => ⟨_, rfl⟩⟩
      have hmul : m.nTx ≤ (k + 1) * m.nTx := Nat.le_mul_of_pos_left _ k.succ_pos
      omega

/-- The blocks are forged exactly if every transaction in them can be published. -/
theorem exists_forgeBlocks_iff : (∃ r, m.forgeBlocks = .ok r) ↔
    0 < m.nTx ∧ ∀ k, (k + 1) * m.nTx ≤ m.bufferedTxs.length →
      ∀ tx ∈ m.blockTxs (k * m.nTx), tx.Publishable e := by
  have hloop : (∃ r, m.forgeBlocks = .ok r) ↔
      ∃ r, m.forgeLoop 0 (m.bufferedTxs.length + 1) = .ok r := by
    constructor
    · rintro ⟨r, hr⟩
      obtain ⟨r₁, hr₁, -⟩ := Exec.bind_eq_ok_iff.1 hr
      exact ⟨r₁, hr₁⟩
    · rintro ⟨r, hr⟩
      rw [forgeBlocks, hr]
      exact ⟨_, rfl⟩
  rw [hloop]
  rcases Nat.eq_zero_or_pos m.nTx with hzero | hpos
  · -- Without transactions there is no block, and there always is one to forge.
    refine ⟨fun ⟨r, hr⟩ => ?_, fun hcond => absurd hzero hcond.1.ne'⟩
    rw [forgeLoop, if_pos (by rw [hzero]; exact Nat.zero_le _)] at hr
    obtain ⟨⟨block, e'⟩, hforge, -⟩ := Exec.bind_eq_ok_iff.1 hr
    rw [h.encoder] at hforge
    obtain rfl := forgeWithTxs_encoder h.sized (h.blockTxs_ne 0) hforge
    refine absurd ?_ ((forgeWithTxs_ok_iff h.sized (h.blockTxs_ne 0)).1 ⟨block, hforge⟩).1
    rw [blockTxs, hzero, List.take_zero]
  · rw [h.forgeLoop_ok_iff hpos, and_iff_right hpos]
    simp only [Nat.zero_add]
    refine ⟨fun hall k hlen => hall k ?_ hlen, fun hall k _ => hall k⟩
    have hmul : k + 1 ≤ (k + 1) * m.nTx := Nat.le_mul_of_pos_right _ hpos
    omega

/-- Forging changes neither the encoder nor the buffer. -/
theorem forgeLoop {i fuel : ℕ} {r : List L2Block × ℕ} (hr : m.forgeLoop i fuel = .ok (r, m')) :
    m'.Encodes e ∧ m'.nTx = m.nTx ∧ m'.bufferedTxs = m.bufferedTxs := by
  induction fuel generalizing m i r with
  | zero =>
    simp only [ManagerWrapper.forgeLoop, Exec.pure_eq_ok_iff, Prod.mk.injEq] at hr
    obtain ⟨-, rfl⟩ := hr
    exact ⟨h, rfl, rfl⟩
  | succ fuel ih =>
    rw [ManagerWrapper.forgeLoop] at hr
    split at hr
    · simp only [Exec.bind_eq_ok_iff, Prod.exists, Exec.pure_eq_ok_iff, Prod.mk.injEq] at hr
      obtain ⟨block, encoder, hforge, blocks, j, m₁, hr, -, rfl⟩ := hr
      rw [h.encoder] at hforge
      obtain rfl := forgeWithTxs_encoder h.sized (h.blockTxs_ne i) hforge
      exact ih (m := m.nextBlock (e.holding [])) h.nextBlock hr
    · simp only [Exec.pure_eq_ok_iff, Prod.mk.injEq] at hr
      obtain ⟨-, rfl⟩ := hr
      exact ⟨h, rfl, rfl⟩

/-- What stays in the buffer was in it. -/
theorem popAllBlocks {persistEveryNBlock : ℕ} {r : List L2Block × List (Snapshot lv)}
    (hr : m.popAllBlocks persistEveryNBlock = .ok (r, m')) :
    m'.Encodes e ∧ m'.nTx = m.nTx ∧ ∀ tx ∈ m'.bufferedTxs, tx ∈ m.bufferedTxs := by
  simp only [ManagerWrapper.popAllBlocks, Exec.bind_eq_ok_iff, Prod.exists, Exec.pure_eq_ok_iff,
    Prod.mk.injEq] at hr
  obtain ⟨blocks, snapshots, j, m₁, hr, -, rfl⟩ := hr
  obtain ⟨hencodes, hnTx, hbuf⟩ := h.forgeLoop (popLoop_forges hr)
  have hsub : ∀ tx ∈ m₁.bufferedTxs.drop j, tx ∈ m₁.bufferedTxs := fun tx => List.mem_of_mem_drop
  exact ⟨⟨hencodes.sized, hencodes.encoder, fun tx htx => hencodes.txType_ne tx (hsub tx htx)⟩, hnTx,
    fun tx htx => hbuf ▸ hsub tx htx⟩

end Encodes

end ManagerWrapper

/-! ## Nodes -/

namespace Node

variable {n n' : Node lv} {allowed : Node lv → Op → Prop} {nTx persistEveryNBlock : ℕ}
  {blockOffset : Option ℕ}

/-- The encoder of a manager of these levels, holding nothing. -/
abbrev encoder (lv : Levels) : TxDataEncoder :=
  TxDataEncoder.new lv.balanceLevels lv.orderLevels lv.accountLevels

/-- A manager can always encode, and its buffer holds transactions it has emitted. -/
structure Buffered (nTx : ℕ) (n : Node lv) : Prop where
  nTx_eq : n.manager.nTx = nTx
  encodes : n.manager.Encodes (encoder lv)
  emitted : ∀ tx ∈ n.manager.bufferedTxs, tx ∈ n.emitted

/-- The buffer only holds what the operations emitted. -/
theorem buffered
    (hn : Exec.Reachable Node.step allowed (Node.new lv nTx blockOffset persistEveryNBlock) n) :
    n.Buffered nTx := by
  refine hn.invariant ⟨rfl, ⟨rfl, rfl, fun _ h => by cases h⟩, fun _ h => by cases h⟩ ?_
  intro m op m' hm hb hop hst
  -- what is emitted is the raw transaction of an operation, never of an order
  have htypes : ∀ tx ∈ m'.emitted, tx.txType ≠ .placeOrder := fun tx htx => by
    obtain ⟨_, _, _, -, -, -, hemits⟩ := exists_emits (hm.step hop hst) htx
    exact hemits.txType_ne
  have hencodes (hemitted : ∀ tx ∈ m'.manager.bufferedTxs, tx ∈ m'.emitted)
      (hencoder : m'.manager.txDataEncoder = m.manager.txDataEncoder) :
      m'.manager.Encodes (encoder lv) :=
    ⟨hb.encodes.sized, hencoder.trans hb.encodes.encoder,
      fun tx htx => htypes tx (hemitted tx htx)⟩
  cases step_stepped hst with
  | flush _ =>
    have hemitted : ∀ tx ∈ m.manager.bufferedTxs ++ List.replicate m.manager.missingTxs m.state.nopTx,
        tx ∈ m.emitted ++ List.replicate m.manager.missingTxs m.state.nopTx :=
      fun tx htx => List.mem_append.2 ((List.mem_append.1 htx).imp_left (hb.emitted tx))
    exact ⟨hb.nTx_eq, hencodes hemitted rfl, hemitted⟩
  | pop hpop =>
    obtain ⟨hencodes, hnTx, hsub⟩ := hb.encodes.popAllBlocks hpop
    exact ⟨hnTx.trans hb.nTx_eq, hencodes, fun tx htx => hb.emitted tx (hsub tx htx)⟩
  | @apply _ raw s' hr =>
    cases raw with
    | none => exact ⟨hb.nTx_eq, hencodes hb.emitted rfl, hb.emitted⟩
    | some raw =>
      have hemitted : ∀ tx ∈ m.manager.bufferedTxs ++ [raw], tx ∈ m.emitted ++ [raw] :=
        fun tx htx => List.mem_append.2 ((List.mem_append.1 htx).imp_left (hb.emitted tx))
      exact ⟨hb.nTx_eq, hencodes hemitted rfl, hemitted⟩

end Node

/-! ## Accepted transactions -/

/-- What was bought or sold is the whole of it. -/
def Order.Completed (o : Order) : Prop := o.filledBuy = o.totalBuy ∨ o.filledSell = o.totalSell

instance (o : Order) : Decidable o.Completed := inferInstanceAs (Decidable (_ ∨ _))

/-- The raw transaction of a trade after which the orders are these. -/
structure RawTx.HasOrders (tx : RawTx) (order1 order2 : Order) : Prop where
  filled1 : tx.payload .newOrder1FilledBuy = order1.filledBuy ∧
    tx.payload .newOrder1FilledSell = order1.filledSell
  amounts1 : compressTotals order1 =
    .ok (tx.payload .newOrder1AmountSell, tx.payload .newOrder1AmountBuy)
  filled2 : tx.payload .newOrder2FilledBuy = order2.filledBuy ∧
    tx.payload .newOrder2FilledSell = order2.filledSell
  amounts2 : compressTotals order2 =
    .ok (tx.payload .newOrder2AmountSell, tx.payload .newOrder2AmountBuy)

/-- A trade completes one of its orders. -/
def RawTx.CompletesOrder (tx : RawTx) : Prop := tx.txType = .spotTrade →
  ∃ order1 order2, tx.HasOrders order1 order2 ∧ (order1.Completed ∨ order2.Completed)

/-- The same, said of the trade and the state it is made in. -/
def Op.CompletesOrder (s : GlobalState lv) : Op → Prop
  | .fullSpotTrade _ tx _ => ∃ side ∈ tx.sides, ∃ order, s.orderOf side = .ok order ∧
      (order.tradeWith side.sell side.buy).Completed
  | _ => True

/-- The sign of a key is a bit, no key comes with a deposit or a transfer, a withdrawal is
    made by an account with a key, and the orders of a trade are about its tokens. -/
def Op.Ordinary (s : GlobalState lv) : Op → Prop
  | .keyUpdate tx _ => tx.l2key.sign = 0 ∨ tx.l2key.sign = 1
  | .deposit tx _ => tx.l2key = none
  | .transfer _ tx _ => tx.l2key = none
  | .withdraw tx _ => s.hasAccount tx.accountId
  | .fullSpotTrade _ tx _ => tx.OrdersMatch s
  | _ => True

instance (s : GlobalState lv) (op : Op) : Decidable (op.Ordinary s) :=
  match op with
  | .keyUpdate _ _ => inferInstanceAs (Decidable (_ ∨ _))
  | .deposit tx _ => inferInstanceAs (Decidable (tx.l2key = none))
  | .transfer _ tx _ => inferInstanceAs (Decidable (tx.l2key = none))
  | .withdraw tx _ => inferInstanceAs (Decidable (s.hasAccount tx.accountId))
  | .fullSpotTrade _ tx _ => inferInstanceAs (Decidable (tx.OrdersMatch s))
  | .createNewAccount _ | .setAccountL2Addr _ _ _ | .setAccountNonce _ _ | .setAccountOrder _ _ _
  | .setTokenBalance _ _ _ | .cancelOrder _ _ | .nop | .flushWithNop | .popAllBlocks =>
    .isTrue trivial

/-- The transactions that are meant to be published; their tokens have leaves. -/
def Op.Regular (s : GlobalState lv) (op : Op) : Prop :=
  op.Typed ∧ op.InRange lv ∧ op.Ordinary s

instance (s : GlobalState lv) (op : Op) : Decidable (op.Regular s) :=
  inferInstanceAs (Decidable (_ ∧ _ ∧ _))

variable [FluidexCommon.Documented]

/-- The heading of a trade says which of its orders it completes. -/
theorem tradeHeading_eq_some_iff_completed {order1 order2 : Order} (h : tx.HasOrders order1 order2)
    {k : ℕ} : tradeHeading tx.payload = some k ↔ (order1.Completed ∨ order2.Completed) ∧
      filledHeading (decide order1.Completed) (decide order2.Completed) = k := by
  obtain ⟨⟨-, hsell1⟩, -, hbuy1⟩ := compressTotals_spec h.amounts1
  obtain ⟨⟨-, hsell2⟩, -, hbuy2⟩ := compressTotals_spec h.amounts2
  have hpos (b1 b2 : Bool) : 0 < filledHeading b1 b2 ↔ b1 = true ∨ b2 = true := by
    revert b1 b2
    decide
  simp only [tradeHeading_eq_some_iff, orderFilled_eq hbuy1 hsell1, orderFilled_eq hbuy2 hsell2,
    h.filled1.1, h.filled1.2, h.filled2.1, h.filled2.2, Except.toOption, Option.some.injEq,
    exists_and_left, exists_eq_left', hpos, decide_eq_true_eq]
  rfl

/-- Ids in range fit in their fields, and so does an amount of 128 bits. -/
theorem commonFields_fit {p : Payload} (h1 : (p .accountId1).val < 2 ^ e.accountBits)
    (h2 : (p .accountId2).val < 2 ^ e.accountBits) (ht : (p .tokenId1).val < 2 ^ e.tokenBits)
    (ha : (p .amount).val < 2 ^ 128) : ∀ f ∈ commonFields e p, f.Fits := by
  intro f hf
  simp only [commonFields, List.mem_cons, List.not_mem_nil, or_false] at hf
  rcases hf with rfl | rfl | rfl | rfl
  · exact FrField.fits_of_lt h1
  · exact FrField.fits_of_lt h2
  · exact FrField.fits_of_lt ht
  · exact FrField.fits_of_lt ha

/-- A key fits if its sign is a bit: the other coordinate is shorter than its field. -/
theorem l2KeyFields_fit {p : Payload} (h1 : (p .accountId1).val < 2 ^ e.accountBits)
    (hs : p .sign2 = 0 ∨ p .sign2 = 1) : ∀ f ∈ l2KeyFields e p, f.Fits := by
  intro f hf
  simp only [l2KeyFields, List.mem_cons, List.not_mem_nil, or_false] at hf
  rcases hf with rfl | rfl | rfl
  · exact FrField.fits_of_lt h1
  · refine FrField.fits_of_lt ?_
    rcases hs with hs | hs <;> · dsimp only; rw [hs]; decide
  · exact FrField.fits_of_lt ((ZMod.val_lt _).trans (show Fr.modulus < 2 ^ 254 by decide))

/-- The fields of a side of a trade. -/
structure PublishedOrder.Fits (e : TxDataEncoder) (accountId tokenSell amountSell amountBuy pos
    orderId : Fr) : Prop where
  accountId : accountId.val < 2 ^ e.accountBits
  tokenSell : tokenSell.val < 2 ^ e.tokenBits
  amountSell : amountSell.val < 2 ^ 40
  amountBuy : amountBuy.val < 2 ^ 40
  pos : pos.val < 2 ^ e.orderBits
  orderId : orderId.val < 2 ^ 32

/-- A trade fits if both of its orders do. -/
theorem spotTradeFields_fit {p : Payload}
    (h1 : PublishedOrder.Fits e (p .accountId1) (p .newOrder1TokenSell) (p .newOrder1AmountSell)
      (p .newOrder1AmountBuy) (p .order1Pos) (p .newOrder1Id))
    (h2 : PublishedOrder.Fits e (p .accountId2) (p .newOrder2TokenSell) (p .newOrder2AmountSell)
      (p .newOrder2AmountBuy) (p .order2Pos) (p .newOrder2Id)) :
    ∀ f ∈ spotTradeFields e p, f.Fits := by
  intro f hf
  simp only [spotTradeFields, List.mem_cons, List.not_mem_nil, or_false] at hf
  rcases hf with rfl | rfl | rfl | rfl | rfl | rfl | rfl | rfl | rfl | rfl | rfl | rfl
  exacts [FrField.fits_of_lt h1.accountId, FrField.fits_of_lt h2.accountId,
    FrField.fits_of_lt h1.tokenSell, FrField.fits_of_lt h2.tokenSell,
    FrField.fits_of_lt h1.amountSell, FrField.fits_of_lt h1.amountBuy, FrField.fits_of_lt h1.pos,
    FrField.fits_of_lt h1.orderId, FrField.fits_of_lt h2.amountSell,
    FrField.fits_of_lt h2.amountBuy, FrField.fits_of_lt h2.pos, FrField.fits_of_lt h2.orderId]

omit [FluidexCommon.Documented] in
/-- A heading and fields that fit are all it takes. -/
theorem RawTx.publishable_of {h : ℕ} (hh : tx.heading = some h) (hf : ∀ f ∈ tx.fields e, f.Fits) :
    tx.Publishable e := ⟨_, h, hh, hf, rfl⟩

variable {s : GlobalState lv} {L : Ledger lv}

omit [FluidexCommon.Documented] in
/-- The raw transaction of a trade has the orders of after the trade. -/
theorem Trade.Describes.hasOrders {T : Trade lv} {t : SpotTradeTx} {s' : GlobalState lv}
    {e1' e2' : Entry lv} (h : T.Describes t s s' e1' e2' tx) :
    tx.HasOrders (T.new1 t) (T.new2 t) := by
  obtain ⟨amounts1, amounts2, h1, h2, hpayload⟩ := h.payload
  refine ⟨?_, ?_, ?_, ?_⟩ <;> rw [hpayload]
  exacts [⟨rfl, rfl⟩, h1, ⟨rfl, rfl⟩, h2]

omit [FluidexCommon] [FluidexCommon.Documented] in
theorem Node.account_val_lt {a : ℕ} (ha : a < 2 ^ lv.accountLevels) :
    ((a : ℕ) : Fr).val < 2 ^ (Node.encoder lv).accountBits :=
  (Fr.val_natCast ha (lv.account_lt.trans (by decide))).trans_lt ha

omit [FluidexCommon] [FluidexCommon.Documented] in
theorem Node.token_val_lt {t : ℕ} (ht : t < 2 ^ lv.balanceLevels) :
    ((t : ℕ) : Fr).val < 2 ^ (Node.encoder lv).tokenBits :=
  (Fr.val_natCast ht (lv.balance_lt.trans (by decide))).trans_lt ht

/-- The orders of a trade that has been accepted can be published. -/
theorem fullSpotTrade_fields_fit (hL : Shows s L) (hs : s.OrdersTyped)
    (hplaced : ∀ a e, L a = some e → e.Placed) {schedule : Shuffle Task} {tx' : FullSpotTradeTx}
    {offset : Option ℤ} (hop : (Op.fullSpotTrade schedule tx' offset).Regular s) {T : Trade lv}
    {s' : GlobalState lv} {e1' e2' : Entry lv} (hof : tx.IsOf .spotTrade offset)
    (hT : T.Accepted s L tx')
    (h1 : T.e1.Trades T.order1 T.pos1 tx'.trade.amount1to2 tx'.trade.amount2to1
      (T.updates1 tx'.trade) e1')
    (h2 : T.e2.Trades T.order2 T.pos2 tx'.trade.amount2to1 tx'.trade.amount1to2
      (T.updates2 tx'.trade) e2')
    (hdesc : T.Describes tx'.trade s s' e1' e2' tx) :
    ∀ f ∈ tx.fields (Node.encoder lv), f.Fits := by
  obtain ⟨htyped, hrange, hkind⟩ := hop
  have horders := hdesc.hasOrders
  -- the totals are compressed, so they fit in 40 bits
  obtain ⟨⟨hsell1, -⟩, hbuy1, -⟩ := compressTotals_spec horders.amounts1
  obtain ⟨⟨hsell2, -⟩, hbuy2, -⟩ := compressTotals_spec horders.amounts2
  obtain ⟨_, _, hplace1, -, -⟩ := h1
  obtain ⟨_, _, hplace2, -, -⟩ := h2
  -- the positions are in range and the ids are `u32`s
  have hpos1 := (hplaced _ _ hT.entry1).place_lt hplace1
  have hpos2 := (hplaced _ _ hT.entry2).place_lt hplace2
  have hid1 : T.order1.Typed := hs.takes hL.toHolds htyped.1 hT.takes1
  have hid2 : T.order2.Typed := hs.takes hL.toHolds htyped.2 hT.takes2
  have hlevels : lv.orderLevels < 254 := lv.order_lt.trans (by decide)
  obtain ⟨amounts1, amounts2, -, -, hpayload⟩ := hdesc.payload
  rw [hpayload] at hsell1 hbuy1 hsell2 hbuy2
  rw [RawTx.fields, hof.1, hpayload]
  refine spotTradeFields_fit
    ⟨Node.account_val_lt (hL.lt hT.entry1), ?_, hsell1, hbuy1,
      (Fr.val_natCast hpos1 hlevels).trans_lt hpos1, (Fr.val_natCast hid1 (by decide)).trans_lt hid1⟩
    ⟨Node.account_val_lt (hL.lt hT.entry2), ?_, hsell2, hbuy2,
      (Fr.val_natCast hpos2 hlevels).trans_lt hpos2, (Fr.val_natCast hid2 (by decide)).trans_lt hid2⟩
  · have htokens := (hkind.1 T.order1 hT.taken1).1
    exact (congrArg ZMod.val htokens).trans_lt
      (Node.token_val_lt (hrange _ List.mem_cons_self))
  · have htokens := (hkind.2 T.order2 hT.taken2).1
    exact (congrArg ZMod.val htokens).trans_lt
      (Node.token_val_lt (hrange _ (List.mem_cons_of_mem _ List.mem_cons_self)))

/-- A regular transaction that has been accepted can be encoded, unless it is a trade that
    completes no order. -/
theorem Op.Emits.publishable_iff {op : Op} (h : op.Emits s L tx) (hL : Shows s L)
    (hs : s.OrdersTyped) (hplaced : ∀ a e, L a = some e → e.Placed) (hop : op.Regular s) :
    tx.Publishable (Node.encoder lv) ↔ tx.CompletesOrder := by
  have hregular := hop
  obtain ⟨-, hrange, hkind⟩ := hop
  -- only a trade has orders to complete
  have hnot (htype : tx.txType ≠ .spotTrade) (hpub : tx.Publishable (Node.encoder lv)) :
      tx.Publishable (Node.encoder lv) ↔ tx.CompletesOrder :=
    ⟨fun _ h => absurd h htype, fun _ => hpub⟩
  have htoken {t : ℕ} (ht : t ∈ op.tokens) : ((t : ℕ) : Fr).val < 2 ^ (Node.encoder lv).tokenBits :=
    Node.token_val_lt (hrange t ht)
  have hamount (amount : U128) : amount.toFr.val < 2 ^ 128 :=
    (Fr.val_natCast amount.isLt (by decide)).trans_lt amount.isLt
  cases h with
  | @keyUpdate offset tx' _ hof ha hpayload =>
    refine hnot (by rw [hof.1]; decide) (RawTx.publishable_of (h := 1) ?_ ?_)
    · rw [RawTx.heading, hof.1, hpayload]
      exact if_pos Fr.one_ne_zero
    · rw [RawTx.fields, hof.1, hpayload]
      exact l2KeyFields_fit (Node.account_val_lt ha) hkind
  | @deposit offset tx' _ hof ha hpayload =>
    have hold : depositPayload tx' (L.entry tx'.accountId).state
        ((L.entry tx'.accountId).balance tx'.tokenId) .dstIsNew = 0 := by
      rw [depositPayload, hkind]
      rfl
    refine hnot (by rw [hof.1]; decide) (RawTx.publishable_of (h := 0) ?_ ?_)
    · rw [RawTx.heading, hof.1, hpayload]
      exact if_neg (not_not.2 hold)
    · rw [RawTx.fields, hof.1, hpayload]
      dsimp only
      rw [if_neg (not_not.2 hold)]
      exact commonFields_fit (Node.account_val_lt ha) (Node.account_val_lt ha) (htoken List.mem_cons_self) (hamount _)
  | @transfer offset schedule tx' _ hof hfrom hto hpayload =>
    have hold : transferPayload tx' (L.entry tx'.fromId).state (L.entry tx'.toId).state
        ((L.entry tx'.fromId).balance tx'.tokenId)
        ((L.entry tx'.toId).balance tx'.tokenId + tx'.amount.toFr) .dstIsNew = 0 := by
      rw [transferPayload, hkind]
      rfl
    refine hnot (by rw [hof.1]; decide) (RawTx.publishable_of (h := 0) ?_ ?_)
    · rw [RawTx.heading, hof.1, hpayload]
      exact if_pos hold
    · rw [RawTx.fields, hof.1, hpayload]
      exact commonFields_fit (Node.account_val_lt hfrom) (Node.account_val_lt hto) (htoken List.mem_cons_self) (hamount _)
  | @withdraw offset tx' _ hof ha hpayload =>
    refine hnot (by rw [hof.1]; decide) (RawTx.publishable_of (h := 4) ?_ ?_)
    · rw [RawTx.heading, hof.1]
    · rw [RawTx.fields, hof.1, hpayload]
      exact commonFields_fit (Node.account_val_lt ha) (Node.account_val_lt ha) (htoken List.mem_cons_self) (hamount _)
  | @fullSpotTrade offset schedule tx' _ T s' e1' e2' hof hT h1 h2 hdesc =>
    have horders := hdesc.hasOrders
    have hfits := fullSpotTrade_fields_fit hL hs hplaced hregular hof hT h1 h2 hdesc
    have hheading : tx.heading = tradeHeading tx.payload := by rw [RawTx.heading, hof.1]
    constructor
    · rintro ⟨_, n, hn, -, -⟩ -
      exact ⟨_, _, horders, ((tradeHeading_eq_some_iff_completed horders).1 (hheading ▸ hn)).1⟩
    · intro hcompletes
      obtain ⟨order1, order2, horders, hcompleted⟩ := hcompletes hof.1
      have hn := (tradeHeading_eq_some_iff_completed horders).2 ⟨hcompleted, rfl⟩
      exact RawTx.publishable_of (hheading.trans hn) hfits
  | nop _ =>
    exact hnot (fun h => by cases h) (RawTx.publishable_of (h := 0) rfl fun f hf => by cases hf)

omit [FluidexCommon.Documented] in
theorem Op.Emits.completesOrder {op : Op} (h : op.Emits s L tx) (hop : op.CompletesOrder s) :
    tx.CompletesOrder := by
  intro htype
  cases h with
  | @fullSpotTrade offset schedule tx' _ T s' e1' e2' hof hT h1 h2 hdesc =>
    obtain ⟨side, hmem, order, hof, hcompleted⟩ := hop
    refine ⟨_, _, hdesc.hasOrders, ?_⟩
    simp only [FullSpotTradeTx.sides, List.mem_cons, List.not_mem_nil, or_false] at hmem
    rcases hmem with rfl | rfl
    · obtain rfl := Except.ok.inj (hT.taken1.symm.trans hof)
      exact .inl hcompleted
    · obtain rfl := Except.ok.inj (hT.taken2.symm.trans hof)
      exact .inr hcompleted
  | keyUpdate hof _ _ | deposit hof _ _ | transfer hof _ _ _ | withdraw hof _ _ =>
    cases hof.1.symm.trans htype
  | nop _ => cases htype

variable {n : Node lv} {nTx persistEveryNBlock : ℕ} {blockOffset : Option ℕ}

/-- Whatever has been emitted by regular transactions can be encoded, unless it is a trade
    that completes no order. -/
theorem Node.publishable_iff (hn : Exec.Reachable Node.step (fun m op => op.Regular m.state)
    (Node.new lv nTx blockOffset persistEveryNBlock) n) (htx : tx ∈ n.emitted) :
    tx.Publishable (Node.encoder lv) ↔ tx.CompletesOrder := by
  obtain ⟨m, op, L, hm, hop, hL, hemits⟩ := Node.exists_emits hn htx
  obtain ⟨L', hL', hplaced⟩ := Node.reachable_ledger (P := Entry.Placed) (.create lv)
    (fun _ _ _ _ _ he h => he.change h) hm
  obtain rfl := hL.toHolds.unique hL'.toHolds
  exact hemits.publishable_iff hL (Node.ordersTyped (fun _ _ h => h.1) hm) hplaced hop

/-- The blocks of the buffer can be forged exactly if every trade in them completes one of
    its orders. If all the trades of a run do, then the blocks can always be forged. -/
theorem forgeBlocks_ok_iff (hn : Exec.Reachable Node.step (fun m op => op.Regular m.state)
    (Node.new lv nTx blockOffset persistEveryNBlock) n) :
    ((∃ r, n.manager.forgeBlocks = .ok r) ↔
      1 ≤ nTx ∧ ∀ k, (k + 1) * nTx ≤ n.manager.bufferedTxs.length →
        ∀ tx ∈ n.manager.blockTxs (k * nTx), tx.CompletesOrder) ∧
    (Exec.Reachable Node.step (fun m op => op.Regular m.state ∧ op.CompletesOrder m.state)
      (Node.new lv nTx blockOffset persistEveryNBlock) n → 1 ≤ nTx →
        ∃ r, n.manager.forgeBlocks = .ok r) := by
  have hb := Node.buffered hn
  have hblock {i : ℕ} {tx : RawTx} (htx : tx ∈ n.manager.blockTxs i) : tx ∈ n.emitted :=
    hb.emitted tx (List.mem_of_mem_drop (List.mem_of_mem_take htx))
  have hiff : (∃ r, n.manager.forgeBlocks = .ok r) ↔
      1 ≤ nTx ∧ ∀ k, (k + 1) * nTx ≤ n.manager.bufferedTxs.length →
        ∀ tx ∈ n.manager.blockTxs (k * nTx), tx.CompletesOrder := by
    rw [hb.encodes.exists_forgeBlocks_iff, hb.nTx_eq]
    refine and_congr_right fun _ => forall_congr' fun k => imp_congr_right fun _ => ?_
    exact forall₂_congr fun tx htx => Node.publishable_iff hn (hblock htx)
  refine ⟨hiff, fun hcompletes hpos => hiff.2 ⟨hpos, fun k _ tx htx => ?_⟩⟩
  obtain ⟨m, op, L, -, hop, -, hemits⟩ := Node.exists_emits hcompletes (hblock htx)
  exact hemits.completesOrder hop.2

end Publishing

/-- Two accounts trade five units against six, the second one wanting `total` of them. -/
def tradeOps (total : Fr) : List Op :=
  [.keyUpdate ⟨0, ⟨1, 1, 5⟩⟩ none, .deposit ⟨0, 1, 90, none⟩ none, .keyUpdate ⟨1, ⟨2, 0, 6⟩⟩ none,
    .deposit ⟨1, 0, 50, none⟩ none,
    .fullSpotTrade .id ⟨⟨0, 1, 1, 0, 5, 6, 3, 4⟩,
      some { Order.default with orderId := 3, tokenSell := 1, totalSell := 10, totalBuy := 12 },
      some { Order.default with accountId := 1, orderId := 4, tokenBuy := 1, totalBuy := total,
                                totalSell := 12 }⟩ none]

attribute [local instance] FluidexCommon.sample in
/-- A block with a trade that completes one of its orders. -/
theorem forgeBlocks_ok_iff_tradeOps : ∃ n r,
    Exec.run Node.step (Node.new Levels.small 5 none 9) (tradeOps 5) = .ok n ∧
      n.manager.forgeBlocks = .ok r ∧ ∀ tx ∈ n.manager.blockTxs 0, tx.CompletesOrder := by
  obtain ⟨_, hn⟩ := Exec.exists_eq_ok (do
    let n ← Exec.run (Exec.guarded Node.step (.explicit "not allowed") fun n op => op.Regular n.state)
      (Node.new Levels.small 5 none 9) (tradeOps 5)
    let _ ← n.manager.forgeBlocks
    assert (5 ≤ n.manager.bufferedTxs.length) "a full block") (by decide +kernel)
  simp only [Exec.bind_eq_ok_iff, Exec.assert_eq_ok_iff] at hn
  obtain ⟨n, hrun, r, hr, hlen⟩ := hn
  obtain ⟨hreach, hrun⟩ := Exec.Reachable.init.of_guarded hrun
  have := FluidexCommon.sample_documented
  exact ⟨n, r, hrun, hr, ((forgeBlocks_ok_iff hreach).1.1 ⟨r, hr⟩).2 0 hlen⟩

attribute [local instance] FluidexCommon.sample in
/-- If the second account wants ten of them, popping the blocks panics. -/
theorem popAllBlocks_panics_tradeOps : ∃ n,
    Exec.Reachable Node.step (fun n op => op.Regular n.state) (Node.new Levels.small 1 none 9) n ∧
      n.step .popAllBlocks = .error (.assertion "h > 0") := by
  obtain ⟨_, hn⟩ := Exec.exists_eq_ok (do
    let n ← Exec.run (Exec.guarded Node.step (.explicit "not allowed") fun n op => op.Regular n.state)
      (Node.new Levels.small 1 none 9) (tradeOps 10)
    assert ((n.step .popAllBlocks).map (fun _ => ()) = .error (.assertion "h > 0")) "a panic")
    (by decide +kernel)
  simp only [Exec.bind_eq_ok_iff, Exec.assert_eq_ok_iff] at hn
  obtain ⟨n, hrun, hpanic⟩ := hn
  exact ⟨n, (Exec.Reachable.init.of_guarded hrun).1, Exec.map_eq_error_iff.1 hpanic⟩

end Rollup
