import Rollup.Dumps
import Rollup.Handling
import Rollup.Snapshots

/-!
# The loop, one iteration at a time

The buffer is shorter than a block before each iteration, and a message adds at most one
transaction to it: an iteration pops at most one block, which is then the whole buffer
(`Node.step_pop_of_eq`). This leaves five cases (`Node.Processed`): a message on an order, a
transaction that does not complete the block, one that does, a timeout without anything to
flush, and one that flushes the block that has been begun.
-/

namespace Rollup

section Loop

variable [FluidexCommon] {lv : Levels}

open Exec (Related)

/-! ## Popping one block -/

namespace ManagerWrapper

variable {m : ManagerWrapper lv} {persistEveryNBlock : ℕ}

/-- There is no block in a short buffer. -/
theorem popAllBlocks_of_lt (hlt : m.bufferedTxs.length < m.nTx) :
    m.popAllBlocks persistEveryNBlock = .ok (([], []), m) := by
  rw [popAllBlocks, popLoop, if_neg (by omega)]
  rfl

omit [FluidexCommon] in
/-- All that is buffered is in the block. -/
theorem blockTxs_zero (hlen : m.bufferedTxs.length = m.nTx) : m.blockTxs 0 = m.bufferedTxs := by
  rw [blockTxs, List.drop_zero, ← hlen, List.take_length]

/-- There is one block in a buffer of its length. -/
theorem popAllBlocks_of_eq (hpos : 0 < m.nTx) (hlen : m.bufferedTxs.length = m.nTx) :
    m.popAllBlocks persistEveryNBlock = (do
      let (block, encoder) ← forgeWithTxs m.blockGenerateNum m.bufferedTxs m.txDataEncoder
      let snapshots ← (m.nextBlock encoder).persistEvery persistEveryNBlock 0
      pure (([block], snapshots), { m.nextBlock encoder with bufferedTxs := [] })) := by
  have hdrop : m.bufferedTxs.drop (0 + m.nTx) = [] := by
    rw [Nat.zero_add, ← hlen, List.drop_length]
  rw [popAllBlocks, popLoop, if_pos (by omega), blockTxs_zero hlen, bind_assoc]
  refine congrArg _ (funext fun r => ?_)
  obtain ⟨block, encoder⟩ := r
  dsimp only
  rw [bind_assoc]
  refine congrArg _ (funext fun snapshots => ?_)
  -- The loop ends after the block.
  have hend : (m.nextBlock encoder).popLoop persistEveryNBlock (0 + (m.nextBlock encoder).nTx)
      m.bufferedTxs.length = .ok (([], [], 0 + m.nTx), m.nextBlock encoder) := by
    obtain ⟨k, hk⟩ := Nat.exists_eq_succ_of_ne_zero (hlen ▸ hpos.ne')
    rw [hk, popLoop, if_neg]
    · rfl
    · change ¬0 + m.nTx + m.nTx ≤ m.bufferedTxs.length
      omega
  rw [hend]
  change Except.ok (([block], snapshots ++ []),
    { m.nextBlock encoder with bufferedTxs := m.bufferedTxs.drop (0 + m.nTx) }) = _
  rw [hdrop, List.append_nil]
  rfl

/-- A manager whose blocks have no transactions cannot pop them. -/
theorem nTx_pos {r : (List L2Block × List (Snapshot lv)) × ManagerWrapper lv}
    (hr : m.popAllBlocks persistEveryNBlock = .ok r) : 0 < m.nTx := by
  by_contra hzero
  obtain ⟨r₁, hr, -⟩ := Exec.bind_eq_ok_iff.1 hr
  rw [popLoop, if_pos (by omega)] at hr
  obtain ⟨⟨block, encoder⟩, hforge, -⟩ := Exec.bind_eq_ok_iff.1 hr
  have hold := (forgeWithTxs_spec hforge).2.oldRoot
  rw [blockTxs, Nat.eq_zero_of_not_pos hzero, List.take_zero] at hold
  cases hold

end ManagerWrapper

namespace Node

variable {n n' : Node lv}

/-- Popping a buffer that is one block. -/
def popBlock (n : Node lv) : Except Panic (Node lv) := do
  let m := n.manager
  let (block, encoder) ← forgeWithTxs m.blockGenerateNum m.bufferedTxs m.txDataEncoder
  let snapshots ← (m.nextBlock encoder).persistEvery n.persistEveryNBlock 0
  pure { n with
    manager := { m.nextBlock encoder with bufferedTxs := [] }
    blocks := n.blocks ++ [block]
    snapshots := n.snapshots ++ snapshots }

/-- There is nothing to pop before a block is complete. -/
theorem step_pop_of_lt (hlt : n.manager.bufferedTxs.length < n.manager.nTx) :
    n.step .popAllBlocks = .ok n := by
  rw [step, ManagerWrapper.popAllBlocks_of_lt hlt, Exec.ok_bind]
  simp only [List.append_nil]
  rfl

/-- A complete block is popped alone. -/
theorem step_pop_of_eq (hpos : 0 < n.manager.nTx)
    (hlen : n.manager.bufferedTxs.length = n.manager.nTx) : n.step .popAllBlocks = n.popBlock := by
  simp only [step, ManagerWrapper.popAllBlocks_of_eq hpos hlen, bind_assoc, pure_bind]
  rfl

/-- The node with its last block filled. -/
def fill (n : Node lv) : Node lv :=
  { n with
    manager := n.manager.addNops n.manager.missingTxs
    emitted := n.emitted ++ List.replicate n.manager.missingTxs n.state.nopTx }

/-- The last block is filled at once. -/
theorem step_flush (hpos : 0 < n.manager.nTx) : n.step .flushWithNop = .ok n.fill := by
  rw [step, ManagerWrapper.flushWithNop_eq_ok_iff.2 ⟨hpos, rfl⟩, Exec.ok_bind,
    ManagerWrapper.drop_addNops]
  rfl

/-- A block that has been begun is filled to its length. -/
theorem length_fill (hlt : n.manager.bufferedTxs.length < n.manager.nTx)
    (hne : n.manager.bufferedTxs ≠ []) : n.fill.manager.bufferedTxs.length = n.manager.nTx := by
  have hlen := List.length_pos_of_ne_nil hne
  have hmissing : n.manager.missingTxs = n.manager.nTx - n.manager.bufferedTxs.length := by
    rw [ManagerWrapper.missingTxs, Nat.mod_eq_of_lt hlt, Nat.mod_eq_of_lt (by omega)]
  change (n.manager.bufferedTxs ++ List.replicate n.manager.missingTxs n.state.nopTx).length = _
  rw [List.length_append, List.length_replicate, hmissing]
  omega

/-- A block and its snapshots have been popped from a buffer that was this block. -/
structure Popped (n : Node lv) (block : L2Block) (written : List (Snapshot lv)) (n' : Node lv) :
    Prop where
  state : n'.state = n.state
  persistEveryNBlock : n'.persistEveryNBlock = n.persistEveryNBlock
  nTx : n'.manager.nTx = n.manager.nTx
  bufferedTxs : n'.manager.bufferedTxs = []
  blockGenerateNum : n'.manager.blockGenerateNum = n.manager.blockGenerateNum + 1
  blocks : n'.blocks = n.blocks ++ [block]
  snapshots : n'.snapshots = n.snapshots ++ written
  blockId : block.blockId = n.manager.blockGenerateNum
  holds : block.Holds n.manager.bufferedTxs
  written : ∀ snapshot ∈ written, snapshot.state = n.state ∧
    snapshot.blockOffset = n'.manager.blockGenerateNum ∧
    lastOffset (n.manager.blockTxs 0) = some snapshot.kafkaOffset

omit [FluidexCommon] in
/-- A block that ends with a message has the root of the state. -/
theorem Popped.newRoot_advance {block : L2Block} {written : List (Snapshot lv)} {raw : RawTx}
    {s : GlobalState lv} (h : (n.advance (some raw) s).Popped block written n')
    (hroot : raw.rootAfter = s.root) : block.detail.newRoot = s.root := by
  have hnew := h.holds.newRoot
  change (n.manager.bufferedTxs ++ [raw]).getLast?.map RawTx.rootAfter = _ at hnew
  rw [List.getLast?_concat, Option.map_some, Option.some.injEq] at hnew
  exact hnew.symm.trans hroot

/-- A block that has been filled has the root of the state. -/
theorem Popped.newRoot_fill {block : L2Block} {written : List (Snapshot lv)}
    (h : n.fill.Popped block written n') (hlt : n.manager.bufferedTxs.length < n.manager.nTx)
    (hne : n.manager.bufferedTxs ≠ []) : block.detail.newRoot = n.state.root := by
  have hnew := h.holds.newRoot
  have hlen := length_fill hlt hne
  change (n.manager.bufferedTxs ++ List.replicate n.manager.missingTxs n.state.nopTx).length = _ at hlen
  change (n.manager.bufferedTxs ++ List.replicate n.manager.missingTxs
    n.state.nopTx).getLast?.map RawTx.rootAfter = _ at hnew
  rw [List.length_append, List.length_replicate] at hlen
  have hmissing : n.manager.missingTxs ≠ 0 := by omega
  rw [List.getLast?_append, List.getLast?_replicate, if_neg hmissing, Option.some_or,
    Option.map_some, Option.some.injEq] at hnew
  exact hnew.symm

/-- What is popped is a block of what was buffered, after which a snapshot may be written. -/
theorem popBlock_popped (hr : n.popBlock = .ok n') :
    ∃ block written, n.Popped block written n' := by
  simp only [popBlock, Exec.bind_eq_ok_iff, Prod.exists, Exec.pure_eq_ok_iff] at hr
  obtain ⟨block, encoder, hforge, written, hpersist, rfl⟩ := hr
  obtain ⟨hid, hholds⟩ := forgeWithTxs_spec hforge
  refine ⟨block, written, rfl, rfl, rfl, rfl, rfl, rfl, rfl, hid, hholds, fun snapshot hmem => ?_⟩
  obtain ⟨-, -, hpersist⟩ := ManagerWrapper.persistEvery_spec hpersist hmem
  simp only [ManagerWrapper.persist, Exec.bind_eq_ok_iff, Exec.unwrap_eq_ok_iff,
    Exec.pure_eq_ok_iff] at hpersist
  obtain ⟨kafkaOffset, hoffset, rfl⟩ := hpersist
  exact ⟨rfl, rfl, hoffset⟩

end Node

/-! ## The iterations -/

variable [RustDecimal] [Babyjubjub] [DecimalExt] [UserKey]

namespace Node

/-- What an iteration of the loop does. -/
inductive Processed (n : Node lv) : Received → Node lv → Prop
  | order {message : WrappedMessage} {schedule : Shuffle Task} {s : GlobalState lv} :
      Processor.default.handleMsg n schedule message = .ok (n.advance none s) →
      message.Yields n.state s none → Processed n (.msg message schedule) (n.advance none s)
  | tx {message : WrappedMessage} {schedule : Shuffle Task} {raw : RawTx} {s : GlobalState lv} :
      Processor.default.handleMsg n schedule message = .ok (n.advance (some raw) s) →
      message.Yields n.state s (some raw) →
      n.manager.bufferedTxs.length + 1 < n.manager.nTx →
      Processed n (.msg message schedule) (n.advance (some raw) s)
  | full {message : WrappedMessage} {schedule : Shuffle Task} {raw : RawTx} {s : GlobalState lv}
      {n' : Node lv} :
      Processor.default.handleMsg n schedule message = .ok (n.advance (some raw) s) →
      message.Yields n.state s (some raw) →
      n.manager.bufferedTxs.length + 1 = n.manager.nTx →
      (n.advance (some raw) s).popBlock = .ok n' → Processed n (.msg message schedule) n'
  | idle : n.manager.bufferedTxs = [] → Processed n .timeout n
  | flush {n' : Node lv} : n.manager.bufferedTxs ≠ [] → n.fill.popBlock = .ok n' →
      Processed n .timeout n'

/-- Between two iterations there is no complete block. -/
structure Idle (n : Node lv) (nTx : ℕ) : Prop where
  nTx_eq : n.manager.nTx = nTx
  length_lt : n.manager.bufferedTxs.length < nTx

variable {n n' : Node lv} {nTx : ℕ} {received : Received}

/-- One message, or one timeout, is at most one block. -/
theorem processMsg_processed (h : n.Idle nTx) (hr : n.processMsg received = .ok n') :
    n.Processed received n' := by
  obtain ⟨n₁, hrec, hpop⟩ := Exec.bind_eq_ok_iff.1 hr
  have hlt : n.manager.bufferedTxs.length < n.manager.nTx := h.nTx_eq ▸ h.length_lt
  have hpos : 0 < n.manager.nTx := Nat.zero_lt_of_lt hlt
  cases received with
  | timeout =>
    by_cases hne : n.manager.bufferedTxs = []
    · have hidle : ¬n.manager.hasRawTx := not_not.2 hne
      rw [receive, if_neg hidle, Exec.pure_eq_ok_iff] at hrec
      subst hrec
      -- The block was not complete before, and nothing has been added.
      rw [step_pop_of_lt hlt] at hpop
      exact Except.ok.inj hpop ▸ .idle hne
    · have hraw : n.manager.hasRawTx := hne
      rw [receive, if_pos hraw, step_flush hpos, Except.ok.injEq] at hrec
      subst hrec
      rw [step_pop_of_eq (n := n.fill) hpos (length_fill hlt hne)] at hpop
      exact .flush hne hpop
  | msg message schedule =>
    obtain ⟨_, hm, raw, s, _, -, hyields, rfl, -⟩ :=
      (Processor.default.handleMsg_related (.refl n.state) message (.inl rfl)).exists_ok hrec
    cases hyields with
    | order htx hroot =>
      -- An order adds nothing to the buffer.
      rw [step_pop_of_lt (n := n.advance none s) hlt] at hpop
      exact Except.ok.inj hpop ▸ .order hrec (.order htx hroot)
    | @tx raw htx hoff hroot htype =>
      have hlen : (n.advance (some raw) s).manager.bufferedTxs.length =
        n.manager.bufferedTxs.length + 1 := List.length_append
      -- One transaction is added, which may complete the block.
      rcases Nat.lt_or_eq_of_le (Nat.succ_le_of_lt hlt) with hshort | hfull
      · rw [step_pop_of_lt (n := n.advance (some raw) s) (hlen.trans_lt hshort)] at hpop
        exact Except.ok.inj hpop ▸ .tx hrec (.tx htx hoff hroot htype) hshort
      · rw [step_pop_of_eq (n := n.advance (some raw) s) hpos (hlen.trans hfull)] at hpop
        exact .full hrec (.tx htx hoff hroot htype) hfull hpop

/-- An iteration leaves no complete block. -/
theorem Processed.idle_after (h : n.Idle nTx) (hst : n.Processed received n') : n'.Idle nTx := by
  cases hst with
  | order _ _ => exact ⟨h.nTx_eq, h.length_lt⟩
  | tx _ _ hlt => exact ⟨h.nTx_eq, by rw [← h.nTx_eq]; exact List.length_append.trans_lt hlt⟩
  | full _ _ _ hpop | flush _ hpop =>
    obtain ⟨block, written, hp⟩ := popBlock_popped hpop
    refine ⟨hp.nTx.trans h.nTx_eq, ?_⟩
    rw [hp.bufferedTxs]
    exact Nat.zero_lt_of_lt h.length_lt
  | idle _ => exact h

end Node

/-! ## Two loops -/

/-- The same message, or a timeout. The tasks of a transfer from an account to itself run in the
    same order. -/
inductive Received.Alike : Received → Received → Prop
  | msg {message : WrappedMessage} {schedule schedule' : Shuffle Task} :
      schedule = schedule' ∨ ¬message.IsSelfTransfer →
      Alike (.msg message schedule) (.msg message schedule')
  | timeout : Alike .timeout .timeout

omit [FluidexCommon] [Babyjubjub] [DecimalExt] [UserKey] in
theorem Received.Alike.refl (received : Received) : received.Alike received := by
  cases received with
  | msg message schedule => exact .msg (.inl rfl)
  | timeout => exact .timeout

/-- The managers only differ by the order in which the maps of their states are stored. -/
structure ManagerWrapper.Same (m m' : ManagerWrapper lv) : Prop where
  state : m.state.Same m'.state
  nTx : m.nTx = m'.nTx
  bufferedTxs : m.bufferedTxs = m'.bufferedTxs
  blockGenerateNum : m.blockGenerateNum = m'.blockGenerateNum
  txDataEncoder : m.txDataEncoder = m'.txDataEncoder

namespace ManagerWrapper.Same

omit [FluidexCommon] [RustDecimal] [Babyjubjub] [DecimalExt] [UserKey] in
theorem refl (m : ManagerWrapper lv) : m.Same m := ⟨.refl _, rfl, rfl, rfl, rfl⟩

variable {m m' : ManagerWrapper lv} (h : m.Same m')
include h

omit [RustDecimal] [Babyjubjub] [DecimalExt] [UserKey]

omit [FluidexCommon] in
theorem trans {m'' : ManagerWrapper lv} (h' : m'.Same m'') : m.Same m'' where
  state := h.state.trans h'.state
  nTx := h.nTx.trans h'.nTx
  bufferedTxs := h.bufferedTxs.trans h'.bufferedTxs
  blockGenerateNum := h.blockGenerateNum.trans h'.blockGenerateNum
  txDataEncoder := h.txDataEncoder.trans h'.txDataEncoder

omit [FluidexCommon] in
/-- Managers that are the same stay so when they buffer the same transaction. -/
theorem addRawTx (raw : RawTx) : (m.addRawTx raw).Same (m'.addRawTx raw) :=
  { h with bufferedTxs := congrArg (· ++ [raw]) h.bufferedTxs }

theorem nop : m.nop.Same m'.nop := by
  rw [ManagerWrapper.nop, ManagerWrapper.nop, h.state.nopTx_eq]
  exact h.addRawTx _

/-- The transactions that fill a block are those of the same state. -/
theorem flushLoop (fuel : ℕ) : (m.flushLoop fuel).Same (m'.flushLoop fuel) := by
  induction fuel generalizing m m' with
  | zero => exact h
  | succ fuel ih =>
    rw [ManagerWrapper.flushLoop, ManagerWrapper.flushLoop, h.bufferedTxs, h.nTx]
    split
    · exact ih h.nop
    · exact h

theorem flushWithNop : Related Same m.flushWithNop m'.flushWithNop := by
  refine .assert_bind (by rw [h.nTx]) fun _ => .pure_pure ?_
  rw [h.nTx]
  exact h.flushLoop _

omit [FluidexCommon] in
/-- Whether a snapshot is written does not depend on the state. -/
theorem persistEvery (persistEveryNBlock i : ℕ) :
    Related (fun _ _ => True) (m.persistEvery persistEveryNBlock i)
      (m'.persistEvery persistEveryNBlock i) := by
  refine .assert_bind Iff.rfl fun _ => .ite (by rw [h.blockGenerateNum]) (fun _ => ?_) fun _ => ?_
  · refine .map (R := fun _ _ => True) ?_ fun _ _ _ => trivial
    rw [persist, persist, blockTxs, blockTxs, h.bufferedTxs, h.nTx]
    exact .bind_self fun _ _ => .pure_pure trivial
  · exact .pure_pure trivial

/-- The blocks are equal, and so are the positions where the loops end. -/
theorem popLoop (persistEveryNBlock i fuel : ℕ) :
    Related (fun r r' => r.1.1 = r'.1.1 ∧ r.1.2.2 = r'.1.2.2 ∧ r.2.Same r'.2)
      (m.popLoop persistEveryNBlock i fuel) (m'.popLoop persistEveryNBlock i fuel) := by
  induction fuel generalizing m m' i with
  | zero => exact .pure_pure ⟨rfl, rfl, h⟩
  | succ fuel ih =>
    refine .ite (by rw [h.bufferedTxs, h.nTx]) (fun _ => ?_) fun _ => .pure_pure ⟨rfl, rfl, h⟩
    rw [blockTxs, blockTxs, h.bufferedTxs, h.nTx, h.blockGenerateNum, h.txDataEncoder]
    refine .bind_self fun r _ => ?_
    obtain ⟨block, encoder⟩ := r
    have hnext : (m.nextBlock encoder).Same (m'.nextBlock encoder) :=
      { h with
        blockGenerateNum := congrArg (· + 1) h.blockGenerateNum
        txDataEncoder := rfl }
    refine (hnext.persistEvery _ _).bind fun _ _ _ => ?_
    have hnTx : (m.nextBlock encoder).nTx = (m'.nextBlock encoder).nTx := h.nTx
    rw [hnTx]
    refine (ih hnext _).bind ?_
    rintro ⟨⟨blocks, snapshots, j⟩, m₁⟩ ⟨⟨_, snapshots', _⟩, m₁'⟩ ⟨rfl, rfl, h₁⟩
    exact .pure_pure ⟨rfl, rfl, h₁⟩

theorem popAllBlocks (persistEveryNBlock : ℕ) :
    Related (fun r r' => r.1.1 = r'.1.1 ∧ r.2.Same r'.2)
      (m.popAllBlocks persistEveryNBlock) (m'.popAllBlocks persistEveryNBlock) := by
  rw [ManagerWrapper.popAllBlocks]
  rw [h.bufferedTxs]
  refine (h.popLoop _ _ _).bind ?_
  rintro ⟨⟨blocks, snapshots, i⟩, m₁⟩ ⟨⟨_, snapshots', _⟩, m₁'⟩ ⟨rfl, rfl, h₁⟩
  exact .pure_pure ⟨rfl, { h₁ with bufferedTxs := congrArg (List.drop i) h₁.bufferedTxs }⟩

end ManagerWrapper.Same

namespace Node

variable {n m n' m' : Node lv} {received received' : Received}

/-- The nodes have been led from `n` and `m` to `n'` and `m'`, and have returned the same blocks. -/
structure Keeps (n m n' m' : Node lv) : Prop where
  manager : n'.manager.Same m'.manager
  persistEveryNBlock : n'.persistEveryNBlock = m'.persistEveryNBlock
  blocks : ∃ blocks, n'.blocks = n.blocks ++ blocks ∧ m'.blocks = m.blocks ++ blocks

omit [FluidexCommon] [RustDecimal] [Babyjubjub] [DecimalExt] [UserKey] in
/-- Two nodes that keep up with each other go on doing so. -/
theorem Keeps.trans {n₁ m₁ : Node lv} (h : n.Keeps m n₁ m₁) (h' : n₁.Keeps m₁ n' m') :
    n.Keeps m n' m' := by
  obtain ⟨blocks, hn, hm⟩ := h.blocks
  obtain ⟨blocks', hn', hm'⟩ := h'.blocks
  refine ⟨h'.manager, h'.persistEveryNBlock, blocks ++ blocks', ?_, ?_⟩
  · rw [hn', hn, List.append_assoc]
  · rw [hm', hm, List.append_assoc]

variable (h : n.manager.Same m.manager) (hp : n.persistEveryNBlock = m.persistEveryNBlock)
include h hp

omit [FluidexCommon] [RustDecimal] [Babyjubjub] [DecimalExt] [UserKey] in
/-- The same transaction is emitted by both. -/
theorem keeps_advance {s s' : GlobalState lv} (hs : s.Same s') (raw : Option RawTx) :
    n.Keeps m (n.advance raw s) (m.advance raw s') := by
  have hm : ManagerWrapper.Same { n.manager with state := s } { m.manager with state := s' } :=
    { h with state := hs }
  cases raw with
  | none => exact ⟨hm, hp, [], (List.append_nil _).symm, (List.append_nil _).symm⟩
  | some raw => exact ⟨hm.addRawTx raw, hp, [], (List.append_nil _).symm, (List.append_nil _).symm⟩

/-- The same message is handled in the same way by both. -/
theorem receive_keeps (hr : received.Alike received') :
    Related (n.Keeps m) (n.receive received) (m.receive received') := by
  have hkeep : n.Keeps m n m := ⟨h, hp, [], (List.append_nil _).symm, (List.append_nil _).symm⟩
  cases hr with
  | @msg message schedule schedule' hs =>
    refine (Processor.default.handleMsg_related h.state message hs).mono ?_
    rintro _ _ ⟨raw, s, s', hsame, -, rfl, rfl⟩
    exact keeps_advance h hp hsame raw
  | timeout =>
    refine .ite ?_ (fun _ => ?_) fun _ => .pure_pure hkeep
    · rw [ManagerWrapper.hasRawTx, ManagerWrapper.hasRawTx, h.bufferedTxs]
    · exact h.flushWithNop.bind fun _ _ h₁ => .pure_pure { hkeep with manager := h₁ }

/-- What an iteration does depends on the state only up to the order of its maps. -/
theorem processMsg_keeps (hr : received.Alike received') :
    Related (n.Keeps m) (n.processMsg received) (m.processMsg received') := by
  refine (receive_keeps h hp hr).bind fun n₁ m₁ h₁ => ?_
  obtain ⟨blocks, hn, hm⟩ := h₁.blocks
  rw [step, step, h₁.persistEveryNBlock]
  refine (h₁.manager.popAllBlocks _).bind ?_
  rintro ⟨⟨popped, snapshots⟩, m₂⟩ ⟨⟨_, snapshots'⟩, m₂'⟩ ⟨rfl, h₂⟩
  refine .pure_pure ⟨h₂, rfl, blocks ++ popped, ?_, ?_⟩
  · rw [← List.append_assoc, ← hn]
  · rw [← List.append_assoc, ← hm]

/-- Two loops that receive the same do the same. -/
theorem run_keeps {rs rs' : List Received} (hrs : List.Forall₂ Received.Alike rs rs') :
    Related (n.Keeps m) (Exec.run Node.processMsg n rs) (Exec.run Node.processMsg m rs') := by
  have hkeep : n.Keeps m n m := ⟨h, hp, [], (List.append_nil _).symm, (List.append_nil _).symm⟩
  refine .run (fun n₁ m₁ _ _ hk hr => ?_) hkeep hrs
  exact (processMsg_keeps hk.manager hk.persistEveryNBlock hr).mono fun _ _ => hk.trans

end Node

end Loop

end Rollup
