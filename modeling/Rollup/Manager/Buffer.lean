import Rollup.Lib.Chain
import Rollup.Manager

/-!
# The buffer of the manager

What the manager does with the raw transactions: adding one, filling the last
block with `nop`s, cutting the buffer in blocks. None of this changes the state,
and every step of a node is of one of three kinds (`Node.Stepped`).
-/

namespace Rollup

variable [FluidexCommon] {lv : Levels}

/-! ## Blocks -/

/-- The block is made of these transactions. -/
structure L2Block.Holds (block : L2Block) (txs : List RawTx) : Prop where
  oldRoot : txs.head?.map RawTx.rootBefore = some block.detail.oldRoot
  newRoot : txs.getLast?.map RawTx.rootAfter = some block.detail.newRoot
  txsType : block.detail.txsType = txs.map RawTx.txType
  encodedTxs : block.detail.encodedTxs = txs.map RawTx.payload
  balancePathElements : block.detail.balancePathElements = txs.map fun tx =>
    [tx.balancePath0, tx.balancePath1, tx.balancePath2, tx.balancePath3]
  orderPathElements : block.detail.orderPathElements = txs.map fun tx => [tx.orderPath0, tx.orderPath1]
  accountPathElements :
    block.detail.accountPathElements = txs.map fun tx => [tx.accountPath0, tx.accountPath1]
  orderRoots : block.detail.orderRoots = txs.map fun tx => [tx.orderRoot0, tx.orderRoot1]
  oldAccountRoots : block.detail.oldAccountRoots = txs.map RawTx.rootBefore
  newAccountRoots : block.detail.newAccountRoots = txs.map RawTx.rootAfter

theorem forgeWithTxs_spec {blockId : ℕ} {txs : List RawTx} {encoder encoder' : TxDataEncoder}
    {block : L2Block} (hr : forgeWithTxs blockId txs encoder = .ok (block, encoder')) :
    block.blockId = blockId ∧ block.Holds txs := by
  simp only [forgeWithTxs, Exec.bind_eq_ok_iff, Exec.unwrap_eq_ok_iff, Exec.pure_eq_ok_iff,
    Prod.mk.injEq] at hr
  obtain ⟨_, -, oldRoot, hold, newRoot, hnew, rfl, -⟩ := hr
  rw [List.head?_map] at hold
  rw [List.getLast?_map] at hnew
  exact ⟨rfl, hold, hnew, rfl, rfl, rfl, rfl, rfl, rfl, rfl, rfl⟩

namespace ManagerWrapper

variable {m m' : ManagerWrapper lv}

/-! ## Filling the last block -/

/-- The number of transactions missing in the last block. -/
def missingTxs (m : ManagerWrapper lv) : ℕ := (m.nTx - m.bufferedTxs.length % m.nTx) % m.nTx

/-- The buffer with `k` transactions at its end that change nothing. -/
def addNops (m : ManagerWrapper lv) (k : ℕ) : ManagerWrapper lv :=
  { m with bufferedTxs := m.bufferedTxs ++ List.replicate k m.state.nopTx }

omit [FluidexCommon] in
theorem missingTxs_lt (h : 0 < m.nTx) : m.missingTxs < m.nTx := Nat.mod_lt _ h

/-- One transaction less is missing after a `nop`. -/
theorem missingTxs_nop (h : 0 < m.nTx) (hne : m.bufferedTxs.length % m.nTx ≠ 0) :
    m.missingTxs = m.nop.missingTxs + 1 := by
  have hlt := Nat.mod_lt m.bufferedTxs.length h
  have hlen : m.nop.bufferedTxs.length = m.bufferedTxs.length + 1 := List.length_append
  have hnTx : m.nop.nTx = m.nTx := rfl
  have hmissing : m.missingTxs = m.nTx - m.bufferedTxs.length % m.nTx := Nat.mod_eq_of_lt (by omega)
  rw [hmissing, missingTxs, hlen, hnTx]
  rcases Nat.lt_or_ge (m.bufferedTxs.length % m.nTx + 1) m.nTx with hlt' | hge
  · have hmod : (m.bufferedTxs.length + 1) % m.nTx = m.bufferedTxs.length % m.nTx + 1 := by
      rw [Nat.add_mod, Nat.mod_eq_of_lt (show 1 < m.nTx by omega), Nat.mod_eq_of_lt hlt']
    have hsub : (m.nTx - (m.bufferedTxs.length % m.nTx + 1)) % m.nTx =
      m.nTx - (m.bufferedTxs.length % m.nTx + 1) := Nat.mod_eq_of_lt (by omega)
    rw [hmod, hsub]
    omega
  · -- The `nop` completes the block.
    have hmod : (m.bufferedTxs.length + 1) % m.nTx = 0 := by
      rw [Nat.add_mod_eq_add_mod_right 1 (Nat.mod_mod m.bufferedTxs.length m.nTx).symm,
        show m.bufferedTxs.length % m.nTx + 1 = m.nTx by omega, Nat.mod_self]
    rw [hmod, Nat.sub_zero, Nat.mod_self]
    omega

theorem flushLoop_eq (h : 0 < m.nTx) {fuel : ℕ} (hfuel : m.missingTxs ≤ fuel) :
    m.flushLoop fuel = m.addNops m.missingTxs := by
  induction fuel generalizing m with
  | zero =>
    rw [Nat.le_zero.1 hfuel, addNops, List.replicate_zero, List.append_nil]
    rfl
  | succ fuel ih =>
    rw [flushLoop]
    split
    · next hne =>
      rw [missingTxs_nop h hne] at hfuel ⊢
      rw [ih (m := m.nop) h (Nat.le_of_succ_le_succ hfuel), addNops, addNops, List.replicate_succ]
      simp only [nop, addRawTx, List.append_assoc, List.singleton_append]
    · next heq =>
      have hzero : m.missingTxs = 0 := by rw [missingTxs, not_not.1 heq, Nat.sub_zero, Nat.mod_self]
      rw [hzero, addNops, List.replicate_zero, List.append_nil]

theorem flushWithNop_eq_ok_iff :
    m.flushWithNop = .ok m' ↔ 0 < m.nTx ∧ m.addNops m.missingTxs = m' := by
  rw [flushWithNop, Exec.assert_bind_eq_ok_iff, Exec.pure_eq_ok_iff, Nat.pos_iff_ne_zero]
  refine and_congr_right fun hne => ?_
  have hpos := Nat.pos_of_ne_zero hne
  rw [flushLoop_eq hpos (missingTxs_lt hpos).le]

/-- What a flush adds to the buffer. -/
theorem drop_addNops (m : ManagerWrapper lv) (k : ℕ) :
    (m.addNops k).bufferedTxs.drop m.bufferedTxs.length = List.replicate k m.state.nopTx :=
  List.drop_left

/-! ## Cutting blocks -/

/-- The blocks are those of consecutive groups of `nTx` transactions, with consecutive ids. -/
def Cuts (nTx blockId : ℕ) (txs : List RawTx) (blocks : List L2Block) (rest : List RawTx) : Prop :=
  blocks.map L2Block.blockId = List.range' blockId blocks.length ∧ ∃ groups : List (List RawTx),
    List.Forall₂ (fun block group => block.Holds group ∧ group.length = nTx) blocks groups ∧
      groups.flatten ++ rest = txs

omit [FluidexCommon] in
/-- The transactions added at the end are left for the next blocks. -/
theorem Cuts.append {nTx blockId : ℕ} {txs rest : List RawTx} {blocks : List L2Block}
    (h : Cuts nTx blockId txs blocks rest) (l : List RawTx) :
    Cuts nTx blockId (txs ++ l) blocks (rest ++ l) := by
  obtain ⟨hids, groups, hgroups, rfl⟩ := h
  exact ⟨hids, groups, hgroups, (List.append_assoc _ _ _).symm⟩

omit [FluidexCommon] in
/-- Cutting more blocks from what is left. -/
theorem Cuts.trans {nTx blockId : ℕ} {txs rest rest' : List RawTx} {blocks blocks' : List L2Block}
    (h : Cuts nTx blockId txs blocks rest)
    (h' : Cuts nTx (blockId + blocks.length) rest blocks' rest') :
    Cuts nTx blockId txs (blocks ++ blocks') rest' := by
  obtain ⟨hids, groups, hgroups, rfl⟩ := h
  obtain ⟨hids', groups', hgroups', rfl⟩ := h'
  refine ⟨?_, groups ++ groups', List.rel_append hgroups hgroups', ?_⟩
  · rw [List.map_append, hids, hids', List.length_append, List.range'_append_1]
  · rw [List.flatten_append, List.append_assoc]

omit [FluidexCommon] in
/-- The blocks cut from a chain of transactions form a chain. -/
theorem Cuts.linked {nTx blockId : ℕ} {txs rest : List RawTx} {blocks : List L2Block} {r r' : Fr}
    (h : Cuts nTx blockId txs blocks rest)
    (hl : Chain.Linked RawTx.rootBefore RawTx.rootAfter r txs r') :
    ∃ r₁, Chain.Linked (fun b => b.detail.oldRoot) (fun b => b.detail.newRoot) r blocks r₁ ∧
      Chain.Linked RawTx.rootBefore RawTx.rootAfter r₁ rest r' := by
  obtain ⟨-, groups, hgroups, rfl⟩ := h
  obtain ⟨r₁, hl, hrest⟩ := Chain.linked_append.1 hl
  exact ⟨r₁, hl.groups (hgroups.imp fun _ _ h => ⟨h.1.oldRoot, h.1.newRoot⟩), hrest⟩

/-- Changing neither the state, nor the buffer, nor the size of the blocks. -/
structure SameBuffer (m m' : ManagerWrapper lv) : Prop where
  state : m'.state = m.state
  nTx : m'.nTx = m.nTx
  bufferedTxs : m'.bufferedTxs = m.bufferedTxs

theorem popLoop_spec (hnTx : 0 < m.nTx) {persistEveryNBlock i fuel j : ℕ} {blocks : List L2Block}
    {snapshots : List (Snapshot lv)} (hfuel : m.bufferedTxs.length < i + fuel)
    (hr : m.popLoop persistEveryNBlock i fuel = .ok ((blocks, snapshots, j), m')) :
    SameBuffer m m' ∧ m'.blockGenerateNum = m.blockGenerateNum + blocks.length ∧
      m.bufferedTxs.length < j + m.nTx ∧
      Cuts m.nTx m.blockGenerateNum (m.bufferedTxs.drop i) blocks (m.bufferedTxs.drop j) := by
  induction fuel generalizing m i blocks snapshots with
  | zero =>
    simp only [popLoop, Exec.pure_eq_ok_iff, Prod.mk.injEq] at hr
    obtain ⟨⟨rfl, -, rfl⟩, rfl⟩ := hr
    exact ⟨⟨rfl, rfl, rfl⟩, rfl, by omega, rfl, [], .nil, rfl⟩
  | succ fuel ih =>
    rw [popLoop] at hr
    split at hr
    · next hle =>
      simp only [Exec.bind_eq_ok_iff, Prod.exists, Exec.pure_eq_ok_iff, Prod.mk.injEq] at hr
      obtain ⟨block, encoder, hforge, _, -, blocks', snapshots', j', m₁, hr, ⟨rfl, -, rfl⟩, rfl⟩ := hr
      obtain ⟨hid, hholds⟩ := forgeWithTxs_spec hforge
      -- The loop advances by a block, so that less of it remains.
      have hnext : (m.nextBlock encoder).bufferedTxs.length < i + m.nTx + fuel := by
        change m.bufferedTxs.length < i + m.nTx + fuel
        omega
      obtain ⟨hsame, hnum, hend, hids, groups, hgroups, hflat⟩ :=
        ih (m := m.nextBlock encoder) hnTx hnext hr
      refine ⟨⟨hsame.state, hsame.nTx, hsame.bufferedTxs⟩, ?_, hend, ?_,
        m.blockTxs i :: groups, .cons ⟨hholds, ?_⟩ hgroups, ?_⟩
      · rw [hnum, List.length_cons]
        change m.blockGenerateNum + 1 + blocks'.length = _
        omega
      · rw [List.map_cons, List.length_cons, List.range'_succ, hid, hids]
        rfl
      · rw [blockTxs, List.length_take, List.length_drop]
        omega
      · -- A group, then the rest of the buffer.
        rw [List.flatten_cons, List.append_assoc]
        change groups.flatten ++ m.bufferedTxs.drop j' = m.bufferedTxs.drop (i + m.nTx) at hflat
        rw [hflat, blockTxs, ← List.drop_drop, List.take_append_drop]
    · next hlt =>
      simp only [Exec.pure_eq_ok_iff, Prod.mk.injEq] at hr
      obtain ⟨⟨rfl, -, rfl⟩, rfl⟩ := hr
      exact ⟨⟨rfl, rfl, rfl⟩, rfl, by omega, rfl, [], .nil, rfl⟩

/-- Popping the blocks of the buffer: what is left is shorter than a block. -/
structure Pops (m : ManagerWrapper lv) (blocks : List L2Block) (m' : ManagerWrapper lv) : Prop where
  state : m'.state = m.state
  nTx : m'.nTx = m.nTx
  blockGenerateNum : m'.blockGenerateNum = m.blockGenerateNum + blocks.length
  length_lt : m'.bufferedTxs.length < m.nTx
  cuts : Cuts m.nTx m.blockGenerateNum m.bufferedTxs blocks m'.bufferedTxs

theorem popAllBlocks_spec (hnTx : 0 < m.nTx) {persistEveryNBlock : ℕ} {blocks : List L2Block}
    {snapshots : List (Snapshot lv)}
    (hr : m.popAllBlocks persistEveryNBlock = .ok ((blocks, snapshots), m')) :
    m.Pops blocks m' := by
  simp only [popAllBlocks, Exec.bind_eq_ok_iff, Prod.exists, Exec.pure_eq_ok_iff,
    Prod.mk.injEq] at hr
  obtain ⟨blocks, snapshots, j, m₁, hr, ⟨rfl, -⟩, rfl⟩ := hr
  obtain ⟨hsame, hnum, hend, hcuts⟩ := popLoop_spec hnTx (by omega) hr
  refine ⟨hsame.state, hsame.nTx, hnum, ?_, ?_⟩
  · change (m₁.bufferedTxs.drop j).length < m.nTx
    rw [hsame.bufferedTxs, List.length_drop]
    omega
  · change Cuts _ _ _ _ (m₁.bufferedTxs.drop j)
    rwa [hsame.bufferedTxs]

theorem popLoop_state {persistEveryNBlock i fuel : ℕ}
    {r : List L2Block × List (Snapshot lv) × ℕ}
    (hr : m.popLoop persistEveryNBlock i fuel = .ok (r, m')) : m'.state = m.state := by
  induction fuel generalizing m i r with
  | zero =>
    simp only [popLoop, Exec.pure_eq_ok_iff, Prod.mk.injEq] at hr
    rw [← hr.2]
  | succ fuel ih =>
    rw [popLoop] at hr
    split at hr
    · simp only [Exec.bind_eq_ok_iff, Prod.exists, Exec.pure_eq_ok_iff, Prod.mk.injEq] at hr
      obtain ⟨_, encoder, -, _, -, _, _, _, _, hr, -, rfl⟩ := hr
      exact ih (m := m.nextBlock encoder) hr
    · simp only [Exec.pure_eq_ok_iff, Prod.mk.injEq] at hr
      rw [← hr.2]

theorem popAllBlocks_state {persistEveryNBlock : ℕ} {r : List L2Block × List (Snapshot lv)}
    (hr : m.popAllBlocks persistEveryNBlock = .ok (r, m')) : m'.state = m.state := by
  simp only [popAllBlocks, Exec.bind_eq_ok_iff, Prod.exists, Exec.pure_eq_ok_iff,
    Prod.mk.injEq] at hr
  obtain ⟨_, _, _, _, hr, -, rfl⟩ := hr
  have hstate := popLoop_state hr
  exact hstate

end ManagerWrapper

/-! ## Operations -/

/-- The function an operation calls, and what becomes of its result. -/
inductive GlobalState.Applied (s : GlobalState lv) : Op → Option RawTx → GlobalState lv → Prop
  | createNewAccount {nextOrderId : ℕ} {r : Except AnyhowError ℕ} {s' : GlobalState lv} :
      s.createNewAccount nextOrderId = .ok (r, s') →
      Applied s (.createNewAccount nextOrderId) none s'
  | setAccountL2Addr {accountId : ℕ} {sign ay : Fr} {s' : GlobalState lv} :
      s.setAccountL2Addr accountId sign ay = .ok s' →
      Applied s (.setAccountL2Addr accountId sign ay) none s'
  | setAccountNonce {accountId : ℕ} {nonce : Fr} {s' : GlobalState lv} :
      s.setAccountNonce accountId nonce = .ok s' →
      Applied s (.setAccountNonce accountId nonce) none s'
  | setAccountOrder {accountId orderPos : ℕ} {order : Order} {s' : GlobalState lv} :
      s.setAccountOrder accountId orderPos order = .ok s' →
      Applied s (.setAccountOrder accountId orderPos order) none s'
  | setTokenBalance {accountId tokenId : ℕ} {balance : Fr} {s' : GlobalState lv} :
      s.setTokenBalance accountId tokenId balance = .ok s' →
      Applied s (.setTokenBalance accountId tokenId balance) none s'
  | keyUpdate {tx : UpdateKeyTx} {offset : Option ℤ} {r : Except AnyhowError RawTx}
      {s' : GlobalState lv} : s.keyUpdate tx offset = .ok (r, s') →
      Applied s (.keyUpdate tx offset) r.toOption s'
  | deposit {tx : DepositTx} {offset : Option ℤ} {r : Except AnyhowError RawTx}
      {s' : GlobalState lv} : s.deposit tx offset = .ok (r, s') →
      Applied s (.deposit tx offset) r.toOption s'
  | transfer {schedule : Shuffle Task} {tx : TransferTx} {offset : Option ℤ} {rawTx : RawTx}
      {s' : GlobalState lv} : s.transfer schedule tx offset = .ok (rawTx, s') →
      Applied s (.transfer schedule tx offset) (some rawTx) s'
  | withdraw {tx : WithdrawTx} {offset : Option ℤ} {rawTx : RawTx} {s' : GlobalState lv} :
      s.withdraw tx offset = .ok (rawTx, s') → Applied s (.withdraw tx offset) (some rawTx) s'
  | fullSpotTrade {schedule : Shuffle Task} {tx : FullSpotTradeTx} {offset : Option ℤ}
      {rawTx : RawTx} {s' : GlobalState lv} : s.fullSpotTrade schedule tx offset = .ok (rawTx, s') →
      Applied s (.fullSpotTrade schedule tx offset) (some rawTx) s'
  | cancelOrder {accountId orderId : ℕ} {s' : GlobalState lv} :
      s.cancelOrder accountId orderId = .ok s' → Applied s (.cancelOrder accountId orderId) none s'
  | nop : Applied s .nop (some s.nopTx) s
  | flushWithNop : Applied s .flushWithNop none s
  | popAllBlocks : Applied s .popAllBlocks none s

theorem GlobalState.applied {s s' : GlobalState lv} {op : Op} {raw : Option RawTx}
    (hr : s.apply op = .ok (raw, s')) : s.Applied op raw s' := by
  cases op with
  | createNewAccount _ | keyUpdate _ _ | deposit _ _ | transfer _ _ _ | withdraw _ _
  | fullSpotTrade _ _ _ =>
    obtain ⟨⟨r, s₁⟩, hcall, hret⟩ := Exec.bind_eq_ok_iff.1 hr
    rw [Exec.pure_eq_ok_iff, Prod.mk.injEq] at hret
    obtain ⟨rfl, rfl⟩ := hret
    constructor
    exact hcall
  | setAccountL2Addr _ _ _ | setAccountNonce _ _ | setAccountOrder _ _ _ | setTokenBalance _ _ _
  | cancelOrder _ _ =>
    obtain ⟨s₁, hcall, hret⟩ := Exec.bind_eq_ok_iff.1 hr
    rw [Exec.pure_eq_ok_iff, Prod.mk.injEq] at hret
    obtain ⟨rfl, rfl⟩ := hret
    constructor
    exact hcall
  | nop | flushWithNop | popAllBlocks =>
    rw [GlobalState.apply, Exec.pure_eq_ok_iff, Prod.mk.injEq] at hr
    obtain ⟨rfl, rfl⟩ := hr
    constructor

/-! ## Steps of the node -/

namespace Node

variable {n n' : Node lv}

omit [FluidexCommon] in
@[simp] theorem emit_state (n : Node lv) (raw : Option RawTx) : (n.emit raw).state = n.state := by
  cases raw <;> rfl

omit [FluidexCommon] in
@[simp] theorem emit_emitted (n : Node lv) (raw : Option RawTx) :
    (n.emit raw).emitted = n.emitted ++ raw.toList := by
  cases raw <;> simp [emit]

/-- The three kinds of steps: filling the last block, popping the blocks, and the
    operations on the state. -/
inductive Stepped (n : Node lv) : Op → Node lv → Prop
  | flush : 0 < n.manager.nTx → Stepped n .flushWithNop
      { n with
        manager := n.manager.addNops n.manager.missingTxs
        emitted := n.emitted ++ List.replicate n.manager.missingTxs n.state.nopTx }
  | pop {blocks : List L2Block} {snapshots : List (Snapshot lv)} {m' : ManagerWrapper lv} :
      n.manager.popAllBlocks n.persistEveryNBlock = .ok ((blocks, snapshots), m') →
      Stepped n .popAllBlocks
        { n with
          manager := m'
          blocks := n.blocks ++ blocks
          snapshots := n.snapshots ++ snapshots }
  | apply {op : Op} {raw : Option RawTx} {s' : GlobalState lv} : n.state.apply op = .ok (raw, s') →
      Stepped n op ({ n with manager := { n.manager with state := s' } }.emit raw)

theorem step_stepped {op : Op} (hst : n.step op = .ok n') : n.Stepped op n' := by
  unfold Node.step at hst
  split at hst
  · simp only [Exec.bind_eq_ok_iff, Exec.pure_eq_ok_iff] at hst
    obtain ⟨m, hflush, rfl⟩ := hst
    obtain ⟨hpos, rfl⟩ := ManagerWrapper.flushWithNop_eq_ok_iff.1 hflush
    rw [ManagerWrapper.drop_addNops]
    exact .flush hpos
  · simp only [Exec.bind_eq_ok_iff, Prod.exists, Exec.pure_eq_ok_iff] at hst
    obtain ⟨blocks, snapshots, m', hpop, rfl⟩ := hst
    exact .pop hpop
  · simp only [Exec.bind_eq_ok_iff, Prod.exists, Exec.pure_eq_ok_iff] at hst
    obtain ⟨raw, s', hr, rfl⟩ := hst
    exact .apply hr

/-- Only popping blocks counts them. -/
theorem step_blockGenerateNum {op : Op} (hop : op ≠ .popAllBlocks) (hst : n.step op = .ok n') :
    n'.manager.blockGenerateNum = n.manager.blockGenerateNum := by
  cases step_stepped hst with
  | flush _ => rfl
  | pop _ => exact absurd rfl hop
  | @apply _ raw _ _ =>
    cases raw with
    | none | some _ => rfl

/-- A step of the node is its operation on the state. -/
theorem step_state {op : Op} (hst : n.step op = .ok n') :
    ∃ raw, n.state.apply op = .ok (raw, n'.state) := by
  cases step_stepped hst with
  | flush _ => exact ⟨none, rfl⟩
  | pop hpop =>
    refine ⟨none, ?_⟩
    rw [GlobalState.apply, state, state, ManagerWrapper.popAllBlocks_state hpop]
    rfl
  | apply hr => exact ⟨_, by rw [hr, emit_state]⟩

/-- A raw transaction is emitted by an operation on the state, or it is a `nop`. -/
theorem mem_emitted {op : Op} {raw : RawTx} (hst : n.step op = .ok n') (hraw : raw ∈ n'.emitted) :
    raw ∈ n.emitted ∨ raw = n.state.nopTx ∨ n.state.apply op = .ok (some raw, n'.state) := by
  cases step_stepped hst with
  | flush _ =>
    rcases List.mem_append.1 hraw with hraw | hraw
    · exact .inl hraw
    · exact .inr (.inl (List.eq_of_mem_replicate hraw))
  | pop _ => exact .inl hraw
  | apply hr =>
    rw [emit_emitted] at hraw
    rcases List.mem_append.1 hraw with hraw | hraw
    · exact .inl hraw
    · rw [Option.mem_toList] at hraw
      subst hraw
      exact .inr (.inr (by rw [hr, emit_state]))

end Node

end Rollup
