import Rollup.Mirror

/-!
# The stream of blocks

The raw transactions emitted by the manager form a chain, from the root of the
new state to that of the current one (`linked_apply`). The blocks are cut from it
in order, without gaps, and what is left is in the buffer (`Node.Stream`,
`blocks_gapless`).
-/

namespace Rollup

section Blocks

variable [FluidexCommon] {lv : Levels} {s s' : GlobalState lv} {L : Ledger lv}

/-- The calls of a manager taking transactions and popping blocks. -/
def Op.InStream : Op → Prop
  | .keyUpdate _ _ | .deposit _ _ | .transfer _ _ _ | .withdraw _ _ | .fullSpotTrade _ _ _ => True
  | .cancelOrder _ _ | .nop | .flushWithNop | .popAllBlocks => True
  | _ => False

/-- An operation changes the root only by emitting a raw transaction that says so. -/
theorem linked_apply (h : Shows s L) {op : Op} (hop : op.InStream) {raw : Option RawTx}
    (hr : s.apply op = .ok (raw, s')) :
    Chain.Linked RawTx.rootBefore RawTx.rootAfter s.root raw.toList s'.root := by
  cases GlobalState.applied hr with
  | createNewAccount _ | setAccountL2Addr _ | setAccountNonce _ | setAccountOrder _
  | setTokenBalance _ => exact hop.elim
  | keyUpdate hr =>
    rcases keyUpdate_spec h hr with ⟨hnone, rfl⟩ | ⟨-, t, -, -, rfl⟩
    · rw [hnone]
      rfl
    · exact ⟨rfl, rfl⟩
  | deposit hr =>
    rcases deposit_spec h hr with ⟨hnone, rfl⟩ | ⟨-, t, -, -, rfl⟩
    · rw [hnone]
      rfl
    · exact ⟨rfl, rfl⟩
  | transfer hr =>
    obtain ⟨-, -, s₁, -, hraw⟩ := transfer_spec h hr
    exact ⟨hraw.rootBefore, hraw.rootAfter⟩
  | withdraw hr =>
    obtain ⟨t, -, -, rfl⟩ := withdraw_spec h hr
    exact ⟨rfl, rfl⟩
  | fullSpotTrade hr =>
    obtain ⟨T, e1', e2', -, -, -, -, hraw⟩ := fullSpotTrade_spec h hr
    exact ⟨hraw.rootBefore, hraw.rootAfter⟩
  | cancelOrder hr =>
    -- The order is changed in the map only: its leaf does not depend on `isActive`.
    obtain ⟨e, pos, order, he, -, -, h'⟩ := cancelOrder_spec h hr
    have hs : (e.setOrder pos { order with isActive := false }).state = e.state := rfl
    rw [h.root_eq, h'.root_eq, Ledger.leaf_set_of_state he hs]
    rfl
  | nop => exact ⟨rfl, rfl⟩
  | flushWithNop | popAllBlocks => rfl

/-- The blocks and the buffer, compared with what has been emitted. -/
structure Node.Stream (nTx blockOffset : ℕ) (n : Node lv) : Prop where
  nTx_eq : n.manager.nTx = nTx
  blockGenerateNum : n.manager.blockGenerateNum = blockOffset + n.blocks.length
  cuts : ManagerWrapper.Cuts nTx blockOffset n.emitted n.blocks n.manager.bufferedTxs
  linked : Chain.Linked RawTx.rootBefore RawTx.rootAfter (GlobalState.new lv).root n.emitted
    n.state.root

namespace Node.Stream

variable {nTx blockOffset : ℕ} {n n' : Node lv}

theorem new (nTx : ℕ) (blockOffset : Option ℕ) (persistEveryNBlock : ℕ) :
    (Node.new lv nTx blockOffset persistEveryNBlock).Stream nTx (blockOffset.getD 0) :=
  ⟨rfl, rfl, ⟨rfl, [], .nil, rfl⟩, rfl⟩

/-- Emitting a raw transaction, or none. -/
theorem emit (hn : n.Stream nTx blockOffset) {s' : GlobalState lv} {raw : Option RawTx}
    (hl : Chain.Linked RawTx.rootBefore RawTx.rootAfter n.state.root raw.toList s'.root) :
    Stream nTx blockOffset ({ n with manager := { n.manager with state := s' } }.emit raw) := by
  have hlinked := Chain.linked_append.2 ⟨_, hn.linked, hl⟩
  cases raw with
  | none =>
    rw [Option.toList_none, List.append_nil] at hlinked
    exact ⟨hn.nTx_eq, hn.blockGenerateNum, hn.cuts, hlinked⟩
  | some rawTx => exact ⟨hn.nTx_eq, hn.blockGenerateNum, hn.cuts.append _, hlinked⟩

theorem step (hnTx : 0 < nTx) (hn : n.Stream nTx blockOffset) (h : Shows n.state L) {op : Op}
    (hop : op.InStream) (hst : n.step op = .ok n') : n'.Stream nTx blockOffset := by
  cases step_stepped hst with
  | flush _ =>
    have hbefore : n.state.nopTx.rootBefore = n.state.root := rfl
    have hafter : n.state.nopTx.rootAfter = n.state.root := rfl
    have hnops := Chain.linked_replicate hbefore hafter n.manager.missingTxs
    exact ⟨hn.nTx_eq, hn.blockGenerateNum, hn.cuts.append _,
      Chain.linked_append.2 ⟨_, hn.linked, hnops⟩⟩
  | pop hpop =>
    have hm := ManagerWrapper.popAllBlocks_spec (by rwa [hn.nTx_eq]) hpop
    have hcuts := hm.cuts
    rw [hn.nTx_eq, hn.blockGenerateNum] at hcuts
    refine ⟨hm.nTx.trans hn.nTx_eq, ?_, hn.cuts.trans hcuts, ?_⟩
    · rw [List.length_append, ← Nat.add_assoc, ← hn.blockGenerateNum]
      exact hm.blockGenerateNum
    · have hlinked := hn.linked
      rw [state, ← hm.state] at hlinked
      exact hlinked
  | apply hr => exact hn.emit (linked_apply h hop hr)

/-- After popping, less than a block is left. -/
theorem length_lt (hnTx : 0 < nTx) (hn : n.Stream nTx blockOffset)
    (hst : n.step .popAllBlocks = .ok n') : n'.manager.bufferedTxs.length < nTx := by
  simp only [Node.step, Exec.bind_eq_ok_iff, Prod.exists, Exec.pure_eq_ok_iff] at hst
  obtain ⟨blocks, snapshots, m', hpop, rfl⟩ := hst
  rw [← hn.nTx_eq] at hnTx ⊢
  exact (ManagerWrapper.popAllBlocks_spec hnTx hpop).length_lt

/-- Flushing completes the last block. -/
theorem flush (hnTx : 0 < nTx) (hn : n.Stream nTx blockOffset) :
    ∃ k < nTx, ∃ n', n.step .flushWithNop = .ok n' ∧
      n'.emitted = n.emitted ++ List.replicate k n.state.nopTx ∧
      n'.manager.bufferedTxs = n.manager.bufferedTxs ++ List.replicate k n.state.nopTx ∧
      n'.state.root = n.state.root := by
  rw [← hn.nTx_eq] at hnTx ⊢
  have hflush : n.manager.flushWithNop = .ok (n.manager.addNops n.manager.missingTxs) :=
    ManagerWrapper.flushWithNop_eq_ok_iff.2 ⟨hnTx, rfl⟩
  refine ⟨_, ManagerWrapper.missingTxs_lt hnTx, { n with
    manager := n.manager.addNops n.manager.missingTxs
    emitted := n.emitted ++ List.replicate n.manager.missingTxs n.state.nopTx }, ?_, rfl, rfl, rfl⟩
  rw [Node.step, hflush, Exec.ok_bind, ManagerWrapper.drop_addNops]
  rfl

/-- Every reachable node has a stream. -/
theorem of_reachable {persistEveryNBlock : ℕ} {blockOffset : Option ℕ} {n : Node lv}
    (hnTx : 1 ≤ nTx) (hn : Exec.Reachable Node.step (fun _ op => op.InStream)
      (Node.new lv nTx blockOffset persistEveryNBlock) n) :
    n.Stream nTx (blockOffset.getD 0) := by
  refine hn.invariant (.new nTx blockOffset persistEveryNBlock) fun m op m' hm hs hop hst => ?_
  obtain ⟨L, h, -⟩ := exists_committed hm
  exact hs.step hnTx h hop hst

end Node.Stream

/-- Whatever the operations and their order, the blocks and the buffer are a gapless chain. -/
theorem blocks_gapless {nTx persistEveryNBlock : ℕ} {blockOffset : Option ℕ} {n : Node lv}
    (hnTx : 1 ≤ nTx) (hn : Exec.Reachable Node.step (fun _ op => op.InStream)
      (Node.new lv nTx blockOffset persistEveryNBlock) n) :
    n.Stream nTx (blockOffset.getD 0) ∧
      (∃ r, Chain.Linked (fun b => b.detail.oldRoot) (fun b => b.detail.newRoot)
          (GlobalState.new lv).root n.blocks r ∧
        Chain.Linked RawTx.rootBefore RawTx.rootAfter r n.manager.bufferedTxs n.state.root) ∧
      (∀ n', n.step .popAllBlocks = .ok n' → n'.manager.bufferedTxs.length < nTx) ∧
      ∃ k < nTx, ∃ n', n.step .flushWithNop = .ok n' ∧
        n'.emitted = n.emitted ++ List.replicate k n.state.nopTx ∧
        n'.manager.bufferedTxs = n.manager.bufferedTxs ++ List.replicate k n.state.nopTx ∧
        n'.state.root = n.state.root := by
  have hstream := Node.Stream.of_reachable hnTx hn
  exact ⟨hstream, hstream.cuts.linked hstream.linked, fun _ => hstream.length_lt hnTx,
    hstream.flush hnTx⟩

end Blocks

/-- Two blocks of two transactions, the second one flushed. -/
def streamOps : List Op :=
  [.keyUpdate ⟨0, ⟨1, 1, 5⟩⟩ none, .deposit ⟨0, 1, 50, none⟩ none, .popAllBlocks,
    .withdraw ⟨0, 1, 10, 0, 50, .default⟩ none, .keyUpdate ⟨0, ⟨1, 1, 5⟩⟩ none, .flushWithNop,
    .popAllBlocks]

attribute [local instance] FluidexCommon.sample in
theorem blocks_gapless_streamOps :
    ∃ n, Exec.run Node.step (Node.new Levels.small 2 (some 7) 100) streamOps = .ok n ∧
      n.Stream 2 7 := by
  obtain ⟨n, hn⟩ := Exec.exists_eq_ok
    (Exec.run Node.step (Node.new Levels.small 2 (some 7) 100) streamOps) (by decide +kernel)
  have hops : ∀ op ∈ streamOps, op.InStream := by simp [streamOps, Op.InStream]
  exact ⟨n, hn, (blocks_gapless (by decide)
    (Exec.Reachable.init.run (fun op hop _ => hops op hop) hn)).1⟩

end Rollup
