import Rollup.Blocks
import Rollup.Publishing

/-!
# Snapshots

Popping the blocks writes a snapshot every few blocks. It is labelled with the block
that has just been forged and with the last offset in it, but its state is that of the
manager, which may have run ahead: the snapshot is consistent with its block exactly
if the block is up to date (`snapshots_consistent`).
-/

namespace Rollup

section Snapshots

variable [FluidexCommon] {lv : Levels}

/-- The last offset of these transactions. -/
def lastOffset (txs : List RawTx) : Option ℤ := (txs.reverse.filterMap RawTx.offset).head?

namespace ManagerWrapper

/-- From the position `i` of the buffer on, the loop of `popAllBlocks` forges the block at the
    position `j` and then writes this snapshot, whatever happens later. -/
inductive Persists (persistEveryNBlock : ℕ) :
    ManagerWrapper lv → ℕ → ℕ → L2Block → Snapshot lv → Prop
  | here {m : ManagerWrapper lv} {i : ℕ} {block : L2Block} {encoder : TxDataEncoder}
      {snapshot : Snapshot lv} : i + m.nTx ≤ m.bufferedTxs.length →
      forgeWithTxs m.blockGenerateNum (m.blockTxs i) m.txDataEncoder = .ok (block, encoder) →
      (m.nextBlock encoder).persistEvery persistEveryNBlock i = .ok [snapshot] →
      Persists persistEveryNBlock m i i block snapshot
  | later {m : ManagerWrapper lv} {i j : ℕ} {block block' : L2Block} {encoder : TxDataEncoder}
      {snapshots : List (Snapshot lv)} {snapshot : Snapshot lv} :
      i + m.nTx ≤ m.bufferedTxs.length →
      forgeWithTxs m.blockGenerateNum (m.blockTxs i) m.txDataEncoder = .ok (block', encoder) →
      (m.nextBlock encoder).persistEvery persistEveryNBlock i = .ok snapshots →
      Persists persistEveryNBlock (m.nextBlock encoder) (i + m.nTx) j block snapshot →
      Persists persistEveryNBlock m i j block snapshot

variable {m m' : ManagerWrapper lv} {persistEveryNBlock i j : ℕ} {block : L2Block}
  {snapshot : Snapshot lv}

omit [FluidexCommon] in
/-- At most one snapshot is written for a block, if it is due. -/
theorem persistEvery_spec {snapshots : List (Snapshot lv)}
    (hr : m.persistEvery persistEveryNBlock i = .ok snapshots) (hmem : snapshot ∈ snapshots) :
    snapshots = [snapshot] ∧ m.blockGenerateNum % persistEveryNBlock = 0 ∧
      m.persist i = .ok snapshot := by
  simp only [persistEvery, Exec.bind_eq_ok_iff] at hr
  obtain ⟨_, -, hr⟩ := hr
  split at hr
  · next hdue =>
    obtain ⟨written, hpersist, rfl⟩ := Exec.map_eq_ok_iff.1 hr
    obtain rfl := List.mem_singleton.1 hmem
    exact ⟨rfl, hdue, hpersist⟩
  · rw [Exec.pure_eq_ok_iff] at hr
    rw [← hr] at hmem
    cases hmem

/-- The snapshots that are written are those of the loop. -/
theorem popLoop_persists {fuel : ℕ} {blocks : List L2Block} {snapshots : List (Snapshot lv)}
    (hr : m.popLoop persistEveryNBlock i fuel = .ok ((blocks, snapshots, j), m')) :
    ∀ snapshot ∈ snapshots, ∃ k, ∃ block ∈ blocks, m.Persists persistEveryNBlock i k block snapshot := by
  induction fuel generalizing m i blocks snapshots with
  | zero =>
    simp only [popLoop, Exec.pure_eq_ok_iff, Prod.mk.injEq] at hr
    obtain ⟨⟨-, rfl, -⟩, -⟩ := hr
    exact fun _ h => by cases h
  | succ fuel ih =>
    rw [popLoop] at hr
    split at hr
    · next hle =>
      simp only [Exec.bind_eq_ok_iff, Prod.exists, Exec.pure_eq_ok_iff, Prod.mk.injEq] at hr
      obtain ⟨block, encoder, hforge, written, hwritten, blocks', snapshots', j', m₁, hr,
        ⟨rfl, rfl, rfl⟩, rfl⟩ := hr
      intro snapshot hmem
      rcases List.mem_append.1 hmem with hnow | hlater
      · obtain ⟨rfl, -, -⟩ := persistEvery_spec hwritten hnow
        exact ⟨i, block, List.mem_cons_self, .here hle hforge hwritten⟩
      · obtain ⟨k, block', hblock, hk⟩ := ih (m := m.nextBlock encoder) hr snapshot hlater
        exact ⟨k, block', List.mem_cons_of_mem _ hblock, .later hle hforge hwritten hk⟩
    · simp only [Exec.pure_eq_ok_iff, Prod.mk.injEq] at hr
      obtain ⟨⟨-, rfl, -⟩, -⟩ := hr
      exact fun _ h => by cases h

/-- A snapshot written after forging the block number `k` from the position `i` on. -/
structure Persisted (m : ManagerWrapper lv) (persistEveryNBlock i k : ℕ) (block : L2Block)
    (snapshot : Snapshot lv) : Prop where
  le : i + (k + 1) * m.nTx ≤ m.bufferedTxs.length
  blockId : block.blockId = m.blockGenerateNum + k
  due : (block.blockId + 1) % persistEveryNBlock = 0
  holds : block.Holds (m.blockTxs (i + k * m.nTx))
  blockOffset : snapshot.blockOffset = block.blockId + 1
  kafkaOffset : lastOffset (m.blockTxs (i + k * m.nTx)) = some snapshot.kafkaOffset
  state : snapshot.state = m.state

theorem Persists.persisted (h : m.Persists persistEveryNBlock i j block snapshot) :
    ∃ k, j = i + k * m.nTx ∧ m.Persisted persistEveryNBlock i k block snapshot := by
  induction h with
  | @here m i block encoder snapshot hle hforge hpersist =>
    obtain ⟨hid, hholds⟩ := forgeWithTxs_spec hforge
    obtain ⟨-, hdue, hpersist⟩ := persistEvery_spec hpersist List.mem_cons_self
    simp only [persist, Exec.bind_eq_ok_iff, Exec.unwrap_eq_ok_iff, Exec.pure_eq_ok_iff] at hpersist
    obtain ⟨kafkaOffset, hoffset, rfl⟩ := hpersist
    refine ⟨0, by omega, ⟨by omega, hid, ?_, ?_, ?_, ?_, rfl⟩⟩
    · rw [hid]
      exact hdue
    · rwa [Nat.zero_mul, Nat.add_zero]
    · rw [hid]
      rfl
    · rw [Nat.zero_mul, Nat.add_zero]
      exact hoffset
  -- The position in the rest of the buffer is one block less.
  | @later m i j block block' encoder snapshots snapshot hle hforge hpersist _ ih =>
    obtain ⟨k, rfl, hk⟩ := ih
    have hnext : i + m.nTx + k * m.nTx = i + (k + 1) * m.nTx := by ring
    have hlen : i + (k + 1 + 1) * m.nTx ≤ m.bufferedTxs.length := by
      refine (Eq.le ?_).trans hk.le
      change _ = i + m.nTx + (k + 1) * m.nTx
      ring
    have hid := hk.blockId
    have hholds := hk.holds
    have hoffset := hk.kafkaOffset
    change block.blockId = m.blockGenerateNum + 1 + k at hid
    -- Of the rest of the buffer, the block begins `k` blocks later.
    change block.Holds (m.blockTxs (i + m.nTx + k * m.nTx)) at hholds
    change lastOffset (m.blockTxs (i + m.nTx + k * m.nTx)) = _ at hoffset
    rw [hnext] at hholds hoffset
    exact ⟨k + 1, hnext, ⟨hlen, by omega, hk.due, hholds, hk.blockOffset, hoffset, hk.state⟩⟩

end ManagerWrapper

/-- The snapshot is that of the block: its state is that of after the block, and among the
    transactions applied to it none has an offset above the one recorded. -/
structure Snapshot.Consistent (snapshot : Snapshot lv) (block : L2Block) (applied : List RawTx) :
    Prop where
  root : snapshot.state.root = block.detail.newRoot
  offsets : ∀ tx ∈ applied, ∀ offset ∈ tx.offset, offset ≤ snapshot.kafkaOffset

namespace Node

variable {n n' : Node lv}

/-- What follows the block number `k` in the buffer. -/
def afterBlock (n : Node lv) (k : ℕ) : List RawTx :=
  n.manager.bufferedTxs.drop ((k + 1) * n.manager.nTx)

/-- What follows the block in the buffer leaves the root as it is. -/
def KeepsRoot (n : Node lv) (k : ℕ) : Prop :=
  ∀ first ∈ (n.afterBlock k).head?, ∀ last ∈ (n.afterBlock k).getLast?,
    last.rootAfter = first.rootBefore

instance (n : Node lv) (k : ℕ) : Decidable (n.KeepsRoot k) :=
  inferInstanceAs (Decidable (∀ first ∈ _, ∀ last ∈ _, _))

/-- What follows the block in the buffer leaves the root as it is, and no transaction has an
    offset above the last one of the block. -/
structure UpToDate (n : Node lv) (k : ℕ) : Prop where
  root : n.KeepsRoot k
  offsets : ∀ tx ∈ n.emitted, ∀ offset ∈ tx.offset,
    ∀ last ∈ lastOffset (n.manager.blockTxs (k * n.manager.nTx)), offset ≤ last

instance (n : Node lv) (k : ℕ) : Decidable (n.UpToDate k) :=
  decidable_of_iff (n.KeepsRoot k ∧ ∀ tx ∈ n.emitted, ∀ offset ∈ tx.offset,
    ∀ last ∈ lastOffset (n.manager.blockTxs (k * n.manager.nTx)), offset ≤ last)
    ⟨fun h => ⟨h.1, h.2⟩, fun h => ⟨h.root, h.offsets⟩⟩

/-- What follows the block in the buffer leaves the root as it is, and has no offset. -/
def NothingAfter (n : Node lv) (k : ℕ) : Prop :=
  n.KeepsRoot k ∧ ∀ tx ∈ n.afterBlock k, tx.offset = none

variable {nTx persistEveryNBlock k : ℕ} {blockOffset : Option ℕ} {block : L2Block}
  {snapshot : Snapshot lv}

section Persisted

variable (hn : Exec.Reachable Node.step (fun _ op => op.InStream)
    (Node.new lv nTx blockOffset persistEveryNBlock) n)
  (h : n.manager.Persisted persistEveryNBlock 0 k block snapshot)
include hn h

/-- What has been emitted before the block, in it and after it. -/
theorem exists_emitted_eq : 1 ≤ nTx ∧ ∃ before,
    n.emitted = before ++ (n.manager.blockTxs (k * n.manager.nTx) ++ n.afterBlock k) := by
  have hnTx : 1 ≤ nTx := by
    have hold := h.holds.oldRoot
    rw [← (buffered hn).nTx_eq]
    by_contra hzero
    rw [ManagerWrapper.blockTxs, Nat.lt_one_iff.1 (not_le.1 hzero), List.take_zero] at hold
    cases hold
  refine ⟨hnTx, ?_⟩
  obtain ⟨-, groups, -, hemitted⟩ := (Node.Stream.of_reachable hnTx hn).cuts
  refine ⟨groups.flatten ++ n.manager.bufferedTxs.take (k * n.manager.nTx), ?_⟩
  rw [← hemitted, ManagerWrapper.blockTxs, afterBlock, Nat.succ_mul, ← List.drop_drop,
    List.take_append_drop, List.append_assoc, List.take_append_drop]

/-- The snapshot is consistent when its block is up to date. -/
theorem consistent_iff : snapshot.Consistent block n.emitted ↔ n.UpToDate k := by
  have hholds := h.holds
  have hoffset := h.kafkaOffset
  rw [Nat.zero_add] at hholds hoffset
  obtain ⟨hnTx, before, hemitted⟩ := exists_emitted_eq hn h
  -- The chain of what has been emitted goes through the root of the block.
  have hlinked := (Node.Stream.of_reachable hnTx hn).linked
  rw [hemitted] at hlinked
  obtain ⟨r₁, -, hlinked⟩ := Chain.linked_append.1 hlinked
  obtain ⟨r₂, hblock, hafter⟩ := Chain.linked_append.1 hlinked
  obtain ⟨last, hlast, hnew⟩ := Option.map_eq_some_iff.1 hholds.newRoot
  obtain rfl : r₂ = block.detail.newRoot := (hblock.tgt_getLast hlast).symm.trans hnew
  have hroot := congrArg GlobalState.root h.state
  constructor
  · intro hc
    refine ⟨hafter.eq_iff.1 (hroot.symm.trans hc.root), fun tx htx offset hof last hmem => ?_⟩
    obtain rfl := Option.some.inj (hoffset.symm.trans hmem)
    exact hc.offsets tx htx offset hof
  · intro hu
    exact ⟨hroot.trans (hafter.eq_iff.2 hu.root),
      fun tx htx offset hof => hu.offsets tx htx offset hof _ hoffset⟩

/-- If the offsets increase, only what follows the block in the buffer matters. -/
theorem upToDate_iff (hinc : (n.emitted.filterMap RawTx.offset).Pairwise (· < ·)) :
    n.UpToDate k ↔ n.NothingAfter k := by
  have hoffset := h.kafkaOffset
  rw [Nat.zero_add] at hoffset
  obtain ⟨-, before, hemitted⟩ := exists_emitted_eq hn h
  have hlast : ((n.manager.blockTxs (k * n.manager.nTx)).filterMap RawTx.offset).getLast? =
      some snapshot.kafkaOffset := by
    rw [← List.head?_reverse, ← List.filterMap_reverse]
    exact hoffset
  -- The offsets increase over what was emitted: before the block, in it and after it.
  rw [hemitted, List.filterMap_append, List.filterMap_append, ← List.append_assoc,
    List.pairwise_append, List.pairwise_append, ← List.dropLast_append_getLast? _ hlast,
    List.pairwise_append] at hinc
  obtain ⟨⟨-, ⟨-, -, hblock⟩, hbefore⟩, -, hafter⟩ := hinc
  constructor
  · intro hu
    refine ⟨hu.root, fun tx htx => Option.eq_none_iff_forall_ne_some.2 fun offset hof => ?_⟩
    have hle := hu.offsets tx (hemitted ▸ by simp [htx]) offset hof _ hoffset
    exact absurd hle (not_le.2 (hafter _ (by simp) offset (List.mem_filterMap.2 ⟨tx, htx, hof⟩)))
  · rintro ⟨hroot, hnone⟩
    refine ⟨hroot, fun tx htx offset hof last hmem => ?_⟩
    obtain rfl := Option.some.inj (hoffset.symm.trans hmem)
    rw [hemitted, List.mem_append, List.mem_append] at htx
    -- A transaction before the block, in it, or after it, where none has an offset.
    rcases htx with htx | htx | htx
    · exact (hbefore offset (List.mem_filterMap.2 ⟨tx, htx, hof⟩) _ (by simp)).le
    · have hmem := List.mem_filterMap.2 ⟨tx, htx, hof⟩
      rw [← List.dropLast_append_getLast? _ hlast, List.mem_append, List.mem_singleton] at hmem
      rcases hmem with hmem | rfl
      · exact (hblock offset hmem _ (List.mem_singleton.2 rfl)).le
      · exact le_rfl
    · cases (hnone tx htx).symm.trans hof

end Persisted

/-- Every block of the buffer that is due for a snapshot is up to date. -/
def AllUpToDate (n : Node lv) : Prop :=
  ∀ k < n.manager.bufferedTxs.length, (k + 1) * n.manager.nTx ≤ n.manager.bufferedTxs.length →
    (n.manager.blockGenerateNum + k + 1) % n.persistEveryNBlock = 0 → n.UpToDate k

instance (n : Node lv) : Decidable n.AllUpToDate := inferInstanceAs (Decidable (∀ k < _, _ → _ → _))

theorem persistEveryNBlock_eq {allowed : Node lv → Op → Prop}
    (hn : Exec.Reachable Node.step allowed (Node.new lv nTx blockOffset persistEveryNBlock) n) :
    n.persistEveryNBlock = persistEveryNBlock := by
  refine hn.invariant rfl fun m op m' _ hm _ hst => ?_
  cases step_stepped hst with
  | flush _ | pop _ => exact hm
  | @apply _ raw _ _ =>
    cases raw with
    | none | some _ => exact hm

end Node

/-- If the blocks are popped, those due for a snapshot are up to date. -/
def Op.PopsUpToDate (n : Node lv) : Op → Prop
  | .popAllBlocks => n.AllUpToDate
  | _ => True

instance (n : Node lv) (op : Op) : Decidable (op.InStream ∧ op.PopsUpToDate n) :=
  match op with
  | .createNewAccount _ | .setAccountL2Addr _ _ _ | .setAccountNonce _ _ | .setAccountOrder _ _ _
  | .setTokenBalance _ _ _ => .isFalse And.left
  | .keyUpdate _ _ | .deposit _ _ | .transfer _ _ _ | .withdraw _ _ | .fullSpotTrade _ _ _
  | .cancelOrder _ _ | .nop | .flushWithNop => .isTrue ⟨trivial, trivial⟩
  | .popAllBlocks => decidable_of_iff n.AllUpToDate ⟨fun h => ⟨trivial, h⟩, And.right⟩

/-- The snapshot was written in a state of the run, of which it is consistent with a block. -/
def Node.Took (n₀ : Node lv) (snapshot : Snapshot lv) (blocks : List L2Block) : Prop :=
  ∃ m, ∃ block ∈ blocks, Exec.Reachable Node.step (fun _ op => op.InStream) n₀ m ∧
    snapshot.state = m.state ∧ snapshot.blockOffset = block.blockId + 1 ∧
    snapshot.Consistent block m.emitted

/-- However the transactions and the pops are interleaved, a snapshot is consistent with its
    block exactly if the block is up to date. If the blocks due for one always are, then all
    the snapshots of a run are consistent. -/
theorem snapshots_consistent {n : Node lv} {nTx persistEveryNBlock : ℕ} {blockOffset : Option ℕ}
    (hn : Exec.Reachable Node.step (fun _ op => op.InStream)
      (Node.new lv nTx blockOffset persistEveryNBlock) n) :
    (∀ j block snapshot, n.manager.Persists n.persistEveryNBlock 0 j block snapshot →
      ∃ k, j = k * n.manager.nTx ∧ snapshot.blockOffset = block.blockId + 1 ∧
        (snapshot.Consistent block n.emitted ↔ n.UpToDate k) ∧
        ((n.emitted.filterMap RawTx.offset).Pairwise (· < ·) →
          (n.UpToDate k ↔ n.NothingAfter k))) ∧
    (Exec.Reachable Node.step (fun m op => op.InStream ∧ op.PopsUpToDate m)
      (Node.new lv nTx blockOffset persistEveryNBlock) n → ∀ snapshot ∈ n.snapshots,
        Node.Took (Node.new lv nTx blockOffset persistEveryNBlock) snapshot n.blocks) := by
  refine ⟨fun j block snapshot h => ?_, fun hrun => ?_⟩
  · obtain ⟨k, hj, hk⟩ := h.persisted
    rw [Node.persistEveryNBlock_eq hn] at hk
    exact ⟨k, hj.trans (Nat.zero_add _), hk.blockOffset, Node.consistent_iff hn hk,
      Node.upToDate_iff hn hk⟩
  · refine hrun.invariant (fun _ h => by cases h) fun m op m' hm ih hop hst => ?_
    have hm := hm.mono fun _ _ => And.left
    cases Node.step_stepped hst with
    | flush _ => exact ih
    | @apply _ raw _ _ =>
      cases raw with
      | none | some _ => exact ih
    -- The blocks of earlier pops stay, so what was taken of them was.
    | @pop blocks snapshots m₁ hpop =>
      have hmore {l : List L2Block} (hl : ∀ b ∈ l, b ∈ m.blocks ++ blocks) {snapshot : Snapshot lv}
          (ht : Node.Took (Node.new lv nTx blockOffset persistEveryNBlock) snapshot l) :
          Node.Took (Node.new lv nTx blockOffset persistEveryNBlock) snapshot
            (m.blocks ++ blocks) := by
        obtain ⟨n', block, hblock, ht⟩ := ht
        exact ⟨n', block, hl block hblock, ht⟩
      intro snapshot hmem
      rcases List.mem_append.1 hmem with hold | hnew
      · exact hmore (fun b hb => List.mem_append_left _ hb) (ih snapshot hold)
      simp only [ManagerWrapper.popAllBlocks, Exec.bind_eq_ok_iff, Prod.exists,
        Exec.pure_eq_ok_iff, Prod.mk.injEq] at hpop
      obtain ⟨_, _, j, m₂, hpop, ⟨rfl, rfl⟩, -⟩ := hpop
      obtain ⟨_, block, hblock, h⟩ := ManagerWrapper.popLoop_persists hpop snapshot hnew
      obtain ⟨k, -, hk⟩ := h.persisted
      have hle := hk.le
      have hdue := hk.due
      rw [Nat.zero_add] at hle
      rw [hk.blockId] at hdue
      have hpe := Node.persistEveryNBlock_eq hm
      -- A snapshot is one of a block that was forged, so its position is in the buffer.
      have hnTx : 1 ≤ m.manager.nTx := by
        rw [(Node.buffered hm).nTx_eq]
        exact (Node.exists_emitted_eq hm (hpe ▸ hk)).1
      have hlt : k < m.manager.bufferedTxs.length := by
        have := Nat.le_mul_of_pos_right (k + 1) hnTx
        omega
      exact ⟨m, block, List.mem_append_right _ hblock, hm, hk.state, hk.blockOffset,
        (Node.consistent_iff hm (hpe ▸ hk)).2 (hop.2 k hlt hle hdue)⟩

end Snapshots

/-- Two messages, then the blocks are popped. -/
def snapshotOps : List Op :=
  [.keyUpdate ⟨0, ⟨1, 1, 5⟩⟩ (some 0), .deposit ⟨0, 1, 50, none⟩ (some 1), .popAllBlocks]

attribute [local instance] FluidexCommon.sample in
/-- In a block of two transactions. -/
theorem snapshots_consistent_snapshotOps : ∃ n snapshot,
    Exec.run Node.step (Node.new Levels.small 2 none 1) snapshotOps = .ok n ∧
      snapshot ∈ n.snapshots ∧ Node.Took (Node.new Levels.small 2 none 1) snapshot n.blocks := by
  obtain ⟨_, hn⟩ := Exec.exists_eq_ok (do
    let n ← Exec.run (Exec.guarded Node.step (.explicit "not up to date")
      fun n op => op.InStream ∧ op.PopsUpToDate n) (Node.new Levels.small 2 none 1) snapshotOps
    unwrap n.snapshots.head?) (by decide +kernel)
  simp only [Exec.bind_eq_ok_iff, Exec.unwrap_eq_ok_iff] at hn
  obtain ⟨n, hrun, hsnap⟩ := hn
  obtain ⟨hreach, hrun⟩ := Exec.Reachable.init.of_guarded hrun
  have hmem := List.mem_of_mem_head? hsnap
  exact ⟨n, _, hrun, hmem, (snapshots_consistent (hreach.mono fun _ _ => And.left)).2 hreach _ hmem⟩

attribute [local instance] FluidexCommon.sample in
/-- In two blocks of one transaction, the snapshot of the first block has the balance that is
    deposited in the second one. -/
theorem not_consistent_snapshotOps : ∃ n n' block snapshot,
    Exec.Reachable Node.step (fun _ op => op.InStream) (Node.new Levels.small 1 none 1) n ∧
      n.step .popAllBlocks = .ok n' ∧ n'.blocks.head? = some block ∧
      n'.snapshots.head? = some snapshot ∧ snapshot.blockOffset = block.blockId + 1 ∧
      snapshot.state.root ≠ block.detail.newRoot ∧
      (∃ tx ∈ n.emitted, ∃ offset ∈ tx.offset, snapshot.kafkaOffset < offset) ∧
      ¬snapshot.Consistent block n.emitted := by
  obtain ⟨_, hn⟩ := Exec.exists_eq_ok (do
    let n ← Exec.run Node.step (Node.new Levels.small 1 none 1) (snapshotOps.take 2)
    let n' ← n.step .popAllBlocks
    let block : L2Block ← unwrap n'.blocks.head?
    let snapshot : Snapshot Levels.small ← unwrap n'.snapshots.head?
    assert (snapshot.blockOffset = block.blockId + 1) "label"
    assert (snapshot.state.root ≠ block.detail.newRoot) "roots"
    let tx : RawTx ← unwrap n.emitted.getLast?
    let offset : ℤ ← unwrap tx.offset
    assert (snapshot.kafkaOffset < offset) "offsets") (by decide +kernel)
  simp only [Exec.bind_eq_ok_iff, Exec.unwrap_eq_ok_iff, Exec.assert_eq_ok_iff] at hn
  obtain ⟨n, hrun, n', hpop, block, hblock, snapshot, hsnap, _, hlabel, _, hroot, tx, htx, offset,
    hof, hlt⟩ := hn
  have hops : ∀ op ∈ snapshotOps.take 2, op.InStream := by
    simp [snapshotOps, Op.InStream]
  exact ⟨n, n', block, snapshot, Exec.Reachable.init.run (fun op hop _ => hops op hop) hrun, hpop,
    hblock, hsnap, hlabel, hroot, ⟨tx, List.mem_of_getLast? htx, offset, hof, hlt⟩,
    fun hc => hroot hc.root⟩

end Rollup
