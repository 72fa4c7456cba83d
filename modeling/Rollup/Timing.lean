import Rollup.Loop
import Rollup.Saving

/-!
# Timeouts

Where a block ends depends on the timeouts: a timeout ends the block that has been begun. The
transactions do not depend on them: two loops that receive the same messages lead to the same
roots after as many transactions, each of them behaving as a node that only receives the
messages (`run_ends`). A block of two runs has the same root in both if it ends there after as
many transactions (`blocks_deterministic`), and may have another root if a timeout has ended
it earlier in one of them: the block is then not the one that the database has.
-/

namespace Rollup

section Timing

variable [RustDecimal]

/-! ## What is received -/

/-- Whether it is a message that has ended the waiting. -/
def Received.isMsg : Received → Bool
  | .msg _ _ => true
  | .timeout => false

/-- What is received, but for the timeouts. -/
def messages (rs : List Received) : List Received := rs.filter Received.isMsg

/-- After how many transactions the blocks end: `begun` of them are in the buffer, and `done`
    have been received. -/
def blockEnds (nTx : ℕ) : (begun done : ℕ) → List Received → List ℕ
  | _, _, [] => []
  | begun, done, .msg message _ :: rs =>
    if message.isTx then
      if begun + 1 = nTx then (done + 1) :: blockEnds nTx 0 (done + 1) rs
      else blockEnds nTx (begun + 1) (done + 1) rs
    else blockEnds nTx begun done rs
  | begun, done, .timeout :: rs =>
    if begun = 0 then blockEnds nTx 0 done rs else done :: blockEnds nTx 0 done rs

/-- The blocks that are in both runs end after as many transactions. -/
def SameEnds (nTx begun : ℕ) (rs rs' : List Received) : Prop :=
  ∀ ends ∈ (blockEnds nTx begun 0 rs).zip (blockEnds nTx begun 0 rs'), ends.1 = ends.2

instance (nTx begun : ℕ) (rs rs' : List Received) : Decidable (SameEnds nTx begun rs rs') :=
  inferInstanceAs (Decidable (∀ ends ∈ _, _))

variable [FluidexCommon] [Babyjubjub] [DecimalExt] [UserKey] {lv : Levels} {nTx : ℕ}

/-! ## The transactions -/

namespace Node

variable {n n' m m' : Node lv} {r₀ : Fr} {k : ℕ}

/-- The root after some transactions, from `r₀` on. -/
def rootAt (r₀ : Fr) (m : Node lv) (k : ℕ) : Option Fr := (r₀ :: m.emitted.map RawTx.rootAfter)[k]?

omit [RustDecimal] [FluidexCommon] [Babyjubjub] [DecimalExt] [UserKey] in
/-- The roots of the past do not change. -/
theorem rootAt_of_prefix (hpre : m.emitted <+: m'.emitted) {r : Fr} (hr : m.rootAt r₀ k = some r) :
    m'.rootAt r₀ k = some r := by
  obtain ⟨later, hlater⟩ := hpre
  rw [rootAt, ← hlater, List.map_append, ← List.cons_append, List.getElem?_append_left]
  · exact hr
  · exact (List.getElem?_eq_some_iff.1 hr).1

omit [RustDecimal] [FluidexCommon] [Babyjubjub] [DecimalExt] [UserKey] in
theorem rootAt_advance {raw : RawTx} {s : GlobalState lv} (hroot : raw.rootAfter = s.root)
    (hlen : m.emitted.length = k) : (m.advance (some raw) s).rootAt r₀ (k + 1) = some s.root := by
  change (r₀ :: (m.emitted ++ [raw]).map RawTx.rootAfter)[k + 1]? = _
  rw [List.getElem?_cons_succ, List.map_append, List.getElem?_append_right (by simp [hlen])]
  simp [hlen, hroot]

/-- The node of a loop, compared with a node that has only received the messages, which were `k`
    transactions. -/
structure Matches (r₀ : Fr) (k : ℕ) (n m : Node lv) : Prop where
  state : n.state.Same m.state
  length : m.emitted.length = k
  root : m.rootAt r₀ k = some n.state.root

/-- A message that has led the loop from `n` to a node does the same to `m`. -/
theorem exists_advance {message : WrappedMessage} {schedule : Shuffle Task} {raw : Option RawTx}
    {s : GlobalState lv} (hs : n.state.Same m.state)
    (hr : Processor.default.handleMsg n schedule message = .ok (n.advance raw s)) :
    ∃ s', s.Same s' ∧ m.receive (.msg message schedule) = .ok (m.advance raw s') := by
  obtain ⟨_, hm, raw', t, t', hsame, -, heq, rfl⟩ :=
    (Processor.default.handleMsg_related hs message (.inl rfl)).exists_ok hr
  have hraw : n.emitted ++ raw.toList = n.emitted ++ raw'.toList := by
    simpa [advance] using congrArg Node.emitted heq
  obtain rfl : raw = raw' := by
    have hlist := List.append_cancel_left hraw
    cases raw <;> cases raw' <;> simp_all
  obtain rfl : s = t := by simpa [advance] using congrArg Node.state heq
  exact ⟨t', hsame, hm⟩

/-- The blocks returned from `n` to `n'` are numbered in order; after as many transactions, the
    root was that of the block. -/
def EndAt (r₀ : Fr) (n n' m' : Node lv) (ends : List ℕ) : Prop := ∃ blocks,
  n'.blocks = n.blocks ++ blocks ∧
  n'.manager.blockGenerateNum = n.manager.blockGenerateNum + blocks.length ∧
  blocks.map L2Block.blockId = List.range' n.manager.blockGenerateNum blocks.length ∧
  List.Forall₂ (fun block k => m'.rootAt r₀ k = some block.detail.newRoot) blocks ends

omit [RustDecimal] [FluidexCommon] [Babyjubjub] [DecimalExt] [UserKey]

theorem EndAt.of_keep (hblocks : n'.blocks = n.blocks)
    (hnum : n'.manager.blockGenerateNum = n.manager.blockGenerateNum) : EndAt r₀ n n' m' [] :=
  ⟨[], hblocks.trans (List.append_nil _).symm, hnum, rfl, .nil⟩

theorem EndAt.append {n₁ m₁ : Node lv} {ends ends' : List ℕ} (h : EndAt r₀ n n₁ m₁ ends)
    (hpre : m₁.emitted <+: m'.emitted) (h' : EndAt r₀ n₁ n' m' ends') :
    EndAt r₀ n n' m' (ends ++ ends') := by
  obtain ⟨blocks, hblocks, hnum, hids, hends⟩ := h
  obtain ⟨blocks', hblocks', hnum', hids', hends'⟩ := h'
  refine ⟨blocks ++ blocks', ?_, ?_, ?_, ?_⟩
  · rw [hblocks', hblocks, List.append_assoc]
  · rw [hnum', hnum, List.length_append, Nat.add_assoc]
  · rw [List.map_append, hids, hids', hnum, List.length_append, ← List.range'_append_1]
  · exact List.rel_append (hends.imp fun _ _ => rootAt_of_prefix hpre) hends'

theorem Popped.endAt [FluidexCommon] {n₁ : Node lv} {block : L2Block} {written : List (Snapshot lv)}
    (hp : n₁.Popped block written n') (hblocks : n₁.blocks = n.blocks)
    (hnum : n₁.manager.blockGenerateNum = n.manager.blockGenerateNum)
    (hroot : m'.rootAt r₀ k = some block.detail.newRoot) : EndAt r₀ n n' m' [k] := by
  refine ⟨[block], hblocks ▸ hp.blocks, ?_, ?_, .cons hroot .nil⟩
  · rw [hp.blockGenerateNum, hnum]
    rfl
  · rw [List.map_singleton, hp.blockId, hnum]
    rfl

end Node

/-! ## Runs -/

namespace Node

variable {n n' m m' : Node lv} {r₀ : Fr} {k : ℕ} {received : Received}

/-- An iteration of the loop, and what the node that only receives the messages does. -/
theorem Processed.exists_matches (hst : n.Processed received n') (h : n.Idle nTx)
    (hm : Matches r₀ k n m) : ∃ m' k' ends,
    Exec.run Node.receive m (messages [received]) = .ok m' ∧ m.emitted <+: m'.emitted ∧
    Matches r₀ k' n' m' ∧ EndAt r₀ n n' m' ends ∧
    ∀ rs, blockEnds nTx n.manager.bufferedTxs.length k (received :: rs) =
      ends ++ blockEnds nTx n'.manager.bufferedTxs.length k' rs := by
  cases hst with
  -- The state may change, but neither the root nor the buffer does.
  | @order message schedule s hhandle hyields =>
    obtain ⟨s', hs, hrec⟩ := exists_advance hm.state hhandle
    obtain ⟨htx, hroot⟩ : message.isTx = false ∧ s.root = n.state.root := by
      cases hyields with
      | order htx hroot => exact ⟨htx, hroot⟩
    refine ⟨_, k, [], Exec.run_cons.2 ⟨_, hrec, rfl⟩, List.prefix_rfl, ⟨hs, hm.length, ?_⟩,
      .of_keep rfl rfl, fun rs => ?_⟩
    · exact hm.root.trans (congrArg some hroot.symm)
    · rw [blockEnds, htx]
      rfl
  | @tx message schedule raw s hhandle hyields hlt =>
    obtain ⟨s', hs, hrec⟩ := exists_advance hm.state hhandle
    obtain ⟨htx, hroot⟩ : message.isTx = true ∧ raw.rootAfter = s.root := by
      cases hyields with
      | tx htx _ hroot _ => exact ⟨htx, hroot⟩
    -- The transactions that are emitted by both have the same roots.
    have hroot' : (m.advance (some raw) s').rootAt r₀ (k + 1) = some s'.root :=
      rootAt_advance (hroot.trans hs.root_eq) hm.length
    refine ⟨_, k + 1, [], Exec.run_cons.2 ⟨_, hrec, rfl⟩, List.prefix_append _ _, ⟨hs, ?_, ?_⟩,
      .of_keep rfl rfl, fun rs => ?_⟩
    · exact List.length_append.trans (congrArg (· + 1) hm.length)
    · exact hroot'.trans (congrArg some hs.root_eq.symm)
    · have hlen : (n.advance (some raw) s).manager.bufferedTxs.length =
        n.manager.bufferedTxs.length + 1 := List.length_append
      rw [blockEnds, if_pos htx, if_neg (by rw [← h.nTx_eq]; omega), hlen]
      rfl
  | @full message schedule raw s _ hhandle hyields hfull hpop =>
    obtain ⟨s', hs, hrec⟩ := exists_advance hm.state hhandle
    obtain ⟨htx, hroot⟩ : message.isTx = true ∧ raw.rootAfter = s.root := by
      cases hyields with
      | tx htx _ hroot _ => exact ⟨htx, hroot⟩
    obtain ⟨block, written, hp⟩ := popBlock_popped hpop
    have hstate : n'.state = s := hp.state
    have hroot' : (m.advance (some raw) s').rootAt r₀ (k + 1) = some s.root :=
      -- The block ends with the transaction that fills it.
      (rootAt_advance (hroot.trans hs.root_eq) hm.length).trans (congrArg some hs.root_eq.symm)
    refine ⟨_, k + 1, [k + 1], Exec.run_cons.2 ⟨_, hrec, rfl⟩, List.prefix_append _ _,
      ⟨hstate ▸ hs, ?_, hstate ▸ hroot'⟩, hp.endAt rfl rfl ?_, fun rs => ?_⟩
    · exact List.length_append.trans (congrArg (· + 1) hm.length)
    · rw [hroot', hp.newRoot_advance hroot]
    · rw [blockEnds, if_pos htx, if_pos (h.nTx_eq ▸ hfull), hp.bufferedTxs]
      rfl
  | idle hempty =>
    refine ⟨m, k, [], rfl, List.prefix_rfl, hm, .of_keep rfl rfl, fun rs => ?_⟩
    rw [blockEnds, hempty]
    rfl
  -- The block ends with the last transaction before those that fill it, which keep the root.
  | flush hne hpop =>
    obtain ⟨block, written, hp⟩ := popBlock_popped hpop
    have hstate : n'.state = n.state := hp.state
    refine ⟨m, k, [k], rfl, List.prefix_rfl, ⟨hstate ▸ hm.state, hm.length, hstate ▸ hm.root⟩,
      hp.endAt rfl rfl ?_, fun rs => ?_⟩
    · rw [hm.root, hp.newRoot_fill (h.nTx_eq ▸ h.length_lt) hne]
    · rw [blockEnds, if_neg (mt List.length_eq_zero_iff.1 hne), hp.bufferedTxs]
      rfl

/-- A run of the loop, and the run on its messages. -/
theorem run_ends {rs : List Received} (h : n.Idle nTx) (hm : Matches r₀ k n m)
    (hr : Exec.run Node.processMsg n rs = .ok n') :
    ∃ m', Exec.run Node.receive m (messages rs) = .ok m' ∧ m.emitted <+: m'.emitted ∧
      EndAt r₀ n n' m' (blockEnds nTx n.manager.bufferedTxs.length k rs) := by
  induction rs generalizing n m k with
  | nil =>
    obtain rfl := Exec.run_nil.1 hr
    exact ⟨m, rfl, List.prefix_rfl, .of_keep rfl rfl⟩
  | cons received rs ih =>
    obtain ⟨n₁, hst, hr⟩ := Exec.run_cons.1 hr
    have hproc := processMsg_processed h hst
    obtain ⟨m₁, k₁, ends, hrun, hpre, hm₁, hends, heq⟩ := hproc.exists_matches h hm
    obtain ⟨m', hrun', hpre', hends'⟩ := ih (hproc.idle_after h) hm₁ hr
    refine ⟨m', ?_, hpre.trans hpre', ?_⟩
    · rw [← List.singleton_append, messages, List.filter_append]
      exact Exec.run_append.2 ⟨m₁, hrun, hrun'⟩
    · rw [heq]
      exact hends.append hpre' hends'

/-- The blocks returned on the way from `n` to `n'`. -/
def newBlocks (n n' : Node lv) : List L2Block := n'.blocks.drop n.blocks.length

omit [RustDecimal] [FluidexCommon] [Babyjubjub] [DecimalExt] [UserKey] in
/-- The block at a position, its number and its root. -/
theorem EndAt.exists_end {ends : List ℕ} (h : EndAt r₀ n n' m' ends) {block : L2Block}
    (hmem : block ∈ n.newBlocks n') : ∃ i k, ends[i]? = some k ∧
      block.blockId = n.manager.blockGenerateNum + i ∧
      m'.rootAt r₀ k = some block.detail.newRoot := by
  obtain ⟨blocks, hblocks, -, hids, hends⟩ := h
  rw [newBlocks, hblocks, List.drop_left] at hmem
  obtain ⟨i, hi, rfl⟩ := List.mem_iff_getElem.1 hmem
  have hlen : i < ends.length := hends.length_eq ▸ hi
  refine ⟨i, ends[i], List.getElem?_eq_getElem hlen, ?_, hends.get hi hlen⟩
  have hid : (blocks.map L2Block.blockId)[i]? = some (n.manager.blockGenerateNum + i) := by
    rw [hids, List.getElem?_range' hi, Nat.one_mul]
  rw [List.getElem?_map, List.getElem?_eq_getElem hi, Option.map_some, Option.some.injEq] at hid
  exact hid

/-- The same messages lead to the same roots. -/
theorem run_receive_related {rs rs' : List Received} (hs : n.state.Same m.state)
    (hemitted : n.emitted = m.emitted)
    (hmsgs : List.Forall₂ Received.Alike (messages rs) (messages rs')) :
    Exec.Related (fun n' m' => n'.state.Same m'.state ∧ n'.emitted = m'.emitted)
      (Exec.run Node.receive n (messages rs)) (Exec.run Node.receive m (messages rs')) := by
  have hinputs : List.Forall₂ (fun r r' => r.isMsg = true ∧ r.Alike r') (messages rs) (messages rs') :=
    (List.forall₂_and_left _ _).2 ⟨fun _ hr => List.of_mem_filter hr, hmsgs⟩
  refine Exec.Related.run ?_ ⟨hs, hemitted⟩ hinputs
  rintro n m _ _ ⟨hs, hemitted⟩ ⟨hmsg, hr⟩
  cases hr with
  | timeout => cases hmsg
  | @msg message schedule schedule' hschedule =>
    refine (Processor.default.handleMsg_related hs message hschedule).mono ?_
    rintro _ _ ⟨raw, s, s', hsame, -, rfl, rfl⟩
    refine ⟨by simpa [advance] using hsame, ?_⟩
    simp [advance, hemitted]

end Node

/-- The rows are those of the blocks from before `n`, and of blocks returned on the way from `n`
    to `n'`. -/
def Disk.HasRowsOf (disk : Disk lv) (n n' : Node lv) : Prop := ∀ row ∈ disk.l2Block,
  row.blockId < n.manager.blockGenerateNum ∨
    ∃ block ∈ n.newBlocks n', row = ⟨block.blockId % 2 ^ 32, block.detail.newRoot⟩

/-- Two loops receive the same messages from the same state, with different timeouts. If the
    blocks of both end after as many transactions, they have the same roots, and the assertion
    on the blocks that are in the database holds. -/
theorem blocks_deterministic {n n' m m' : Node lv} {rs rs' : List Received} (h : n.Idle nTx)
    (hsame : n.manager.Same m.manager) (hn : Exec.run Node.processMsg n rs = .ok n')
    (hm : Exec.run Node.processMsg m rs' = .ok m')
    (hmsgs : List.Forall₂ Received.Alike (messages rs) (messages rs'))
    (hends : SameEnds nTx n.manager.bufferedTxs.length rs rs') :
    (∀ block ∈ n.newBlocks n', ∀ block' ∈ m.newBlocks m', block.blockId = block'.blockId →
      block.detail.newRoot = block'.detail.newRoot) ∧
    ∀ disk : Disk lv, disk.HasRowsOf n n' → (∀ block ∈ n.newBlocks n', block.blockId < 2 ^ 32) →
      ∀ block ∈ m.newBlocks m', block.blockId < 2 ^ 32 →
        ∃ isPresent, disk.isPresentBlock block = .ok isPresent := by
  have hidle : m.Idle nTx := ⟨hsame.nTx ▸ h.nTx_eq, hsame.bufferedTxs ▸ h.length_lt⟩
  -- The runs on the messages, from nodes that have not emitted anything.
  have hstart : Node.Matches n.state.root 0 n { n with emitted := [] } := ⟨.refl _, rfl, rfl⟩
  have hstart' : Node.Matches n.state.root 0 m { m with emitted := [] } :=
    ⟨.refl _, rfl, congrArg some hsame.state.root_eq⟩
  obtain ⟨n₁, hrun, -, hn'⟩ := Node.run_ends h hstart hn
  obtain ⟨m₁, hrun', -, hm'⟩ := Node.run_ends hidle hstart' hm
  obtain ⟨_, hrun₁, -, hemitted⟩ := (Node.run_receive_related (n := { n with emitted := [] })
    (m := { m with emitted := [] }) hsame.state rfl hmsgs).exists_ok hrun
  obtain rfl := Except.ok.inj (hrun'.symm.trans hrun₁)
  have hroots : ∀ block ∈ n.newBlocks n', ∀ block' ∈ m.newBlocks m',
      block.blockId = block'.blockId → block.detail.newRoot = block'.detail.newRoot := by
    intro block hblock block' hblock' hid
    obtain ⟨i, k, hk, hi, hroot⟩ := hn'.exists_end hblock
    obtain ⟨i', k', hk', hi', hroot'⟩ := hm'.exists_end hblock'
    rw [hi, hi', hsame.blockGenerateNum] at hid
    obtain rfl := Nat.add_left_cancel hid
    rw [← hsame.bufferedTxs] at hk'
    obtain rfl : k = k' := hends (k, k')
      (List.mem_of_getElem? (List.getElem?_zip_eq_some.2 ⟨hk, hk'⟩))
    rw [Node.rootAt, ← hemitted] at hroot'
    exact Option.some.inj (hroot.symm.trans hroot')
  refine ⟨hroots, fun disk hdisk hlt block hblock hblockId => ?_⟩
  rw [Disk.isPresentBlock]
  split
  · next row hrow =>
    have hid : row.blockId = block.blockId % 2 ^ 32 := by simpa using List.find?_some hrow
    rcases hdisk row (List.mem_of_find?_eq_some hrow) with hold | ⟨block₁, hblock₁, rfl⟩
    · obtain ⟨i, -, -, hi, -⟩ := hm'.exists_end hblock
      rw [hid, Nat.mod_eq_of_lt hblockId, hi, hsame.blockGenerateNum] at hold
      omega
    · have hid₁ : block₁.blockId = block.blockId := by
        rw [← Nat.mod_eq_of_lt (hlt block₁ hblock₁), ← Nat.mod_eq_of_lt hblockId]
        exact hid
      exact ⟨true, by rw [assert, Exec.assert_of (hroots _ hblock₁ _ hblock hid₁)]; rfl⟩
  · exact ⟨false, rfl⟩

end Timing

/-! ## New users, and timeouts -/

section Example

attribute [local instance] FluidexCommon.sample RustDecimal.sample Babyjubjub.sample
  DecimalExt.sample UserKey.sample

/-- A message on a new user, with a key of 32 equal bytes. -/
def newUser (userId : ℕ) (offset : ℤ) : Received :=
  .msg (.user ⟨⟨userId, "0x1", "0x" ++ String.ofList (List.replicate 32 '5')⟩, some offset⟩) .id

/-- There is a timeout after each user. -/
def eachFlushed : List Received := [newUser 0 1, .timeout, newUser 1 2, .timeout]

theorem blocks_deterministic_eachFlushed : ∃ n n' block block',
    Exec.run Node.processMsg (Node.new Levels.small 2 none 9) eachFlushed = .ok n ∧
    Exec.run Node.processMsg (Node.new Levels.small 2 none 9) (.timeout :: eachFlushed) = .ok n' ∧
    n.blocks[1]? = some block ∧ n'.blocks[1]? = some block' ∧
    block.detail.newRoot = block'.detail.newRoot := by
  obtain ⟨⟨n, n', block, block'⟩, hrun⟩ := Exec.exists_eq_ok (do
    let n ← Exec.run Node.processMsg (Node.new Levels.small 2 none 9) eachFlushed
    let n' ← Exec.run Node.processMsg (Node.new Levels.small 2 none 9) (.timeout :: eachFlushed)
    let block : L2Block ← unwrap n.blocks[1]?
    let block' : L2Block ← unwrap n'.blocks[1]?
    Exec.assert .unwrap (block.blockId = block'.blockId)
    pure (n, n', block, block')) (by decide +kernel)
  simp only [Exec.bind_eq_ok_iff, Exec.unwrap_eq_ok_iff, Exec.assert_eq_ok_iff,
    Exec.pure_eq_ok_iff, Prod.mk.injEq] at hrun
  obtain ⟨n, hn, n', hn', block, hblock, block', hblock', _, hid, rfl, rfl, rfl, rfl⟩ := hrun
  have hmsgs : List.Forall₂ Received.Alike (messages eachFlushed)
      (messages (.timeout :: eachFlushed)) :=
    .cons (.msg (.inl rfl)) (.cons (.msg (.inl rfl)) .nil)
  have hidle : (Node.new Levels.small 2 none 9).Idle 2 := ⟨rfl, by decide⟩
  refine ⟨n, n', block, block', hn, hn', hblock, hblock', ?_⟩
  exact (blocks_deterministic hidle ⟨.refl _, rfl, rfl, rfl, rfl⟩ hn hn' hmsgs
    (by decide)).1 block (List.mem_of_getElem? hblock) block' (List.mem_of_getElem? hblock') hid

/-- With a timeout after the first user only in one of the runs, the first blocks have different
    roots: a loop that is started again stops at the assertion. -/
theorem not_deterministic_newUser : ∃ n n' block block',
    Exec.run Node.processMsg (Node.new Levels.small 2 none 9) eachFlushed = .ok n ∧
    Exec.run Node.processMsg (Node.new Levels.small 2 none 9) (messages eachFlushed) = .ok n' ∧
    n.blocks[0]? = some block ∧ n'.blocks[0]? = some block' ∧ block.blockId = block'.blockId ∧
    block.detail.newRoot ≠ block'.detail.newRoot ∧
    (n.blocks.foldl Disk.saveBlock ⟨[], [], []⟩ : Disk Levels.small).isPresentBlock block' =
      .error (.assertion "l2 block generation must be deterministic!") := by
  obtain ⟨⟨n, n', block, block'⟩, hrun⟩ := Exec.exists_eq_ok (do
    let n ← Exec.run Node.processMsg (Node.new Levels.small 2 none 9) eachFlushed
    let n' ← Exec.run Node.processMsg (Node.new Levels.small 2 none 9) (messages eachFlushed)
    let block : L2Block ← unwrap n.blocks[0]?
    let block' : L2Block ← unwrap n'.blocks[0]?
    Exec.assert .unwrap (block.blockId = block'.blockId ∧
      block.detail.newRoot ≠ block'.detail.newRoot ∧
      (n.blocks.foldl Disk.saveBlock ⟨[], [], []⟩ : Disk Levels.small).isPresentBlock block' =
        .error (.assertion "l2 block generation must be deterministic!"))
    pure (n, n', block, block')) (by decide +kernel)
  simp only [Exec.bind_eq_ok_iff, Exec.unwrap_eq_ok_iff, Exec.assert_eq_ok_iff,
    Exec.pure_eq_ok_iff, Prod.mk.injEq] at hrun
  obtain ⟨n, hn, n', hn', block, hblock, block', hblock', _, ⟨hid, hroot, hpanic⟩, rfl, rfl, rfl,
    rfl⟩ := hrun
  exact ⟨n, n', block, block', hn, hn', hblock, hblock', hid, hroot, hpanic⟩

end Example

end Rollup
