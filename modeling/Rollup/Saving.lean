import Mathlib.Data.List.MinMax
import Rollup.Dumps

/-!
# Saving blocks

The processor pops the blocks, skips those that the database already has and sends the
other ones to the saver, which inserts a row for the block and then one for its task. A
crash drops everything but the snapshots and the rows.

* The snapshot of a block is written when the block is forged, long before its row is: a
  crash in between loses the block, which is not generated again (`noneLost_iff`).
* A block is skipped if its row is there: a crash between the two rows leaves a block
  without a task (`skipped_has_task`).
-/

namespace Rollup

section Saving

variable [FluidexCommon] {lv : Levels}

/-! ## The system -/

/-- A row of the table of blocks, whose ids are `u32`. -/
structure BlockRow where
  blockId : ℕ
  newRoot : Fr

/-- What survives a crash: the dumps, each written at once here, the table of blocks, and
    the ids of the blocks in the table of tasks. -/
structure Disk (lv : Levels) where
  snapshots : List (Snapshot lv)
  l2Block : List BlockRow
  task : List ℕ

/-- Where the processor is in its loop: waiting for a message, in the loop of
    `popAllBlocks`, in the loop over the blocks, and sending one of them. -/
inductive Phase where
  | receiving
  | popping (i : ℕ) (blocks : List L2Block)
  | handling (blocks : List L2Block)
  | sending (block : L2Block) (blocks : List L2Block)

/-- Where the saver is in its loop: waiting, and before each of the two inserts. -/
inductive Saver where
  | idle
  | received (block : L2Block)
  | savedBlock (block : L2Block)

/-- A process: the manager, the processor, the channel and the saver. -/
structure Process (lv : Levels) where
  node : Node lv
  phase : Phase
  oldBlockCheck : Bool
  channel : List L2Block
  saver : Saver

/-- There is no process before the first start and after a crash. -/
structure System (lv : Levels) where
  disk : Disk lv
  process : Option (Process lv)

/-- What happens next. A message or a timeout is some calls of the manager. -/
inductive Event where
  | call (op : Op)
  | popAllBlocks
  | forge
  | drain
  | check
  | send
  | receive
  | saveBlock
  | saveTask
  | crash
  | start (iteration : Shuffle (ℕ × AccountState))

namespace Disk

/-- The snapshot with the greatest number. -/
def newest (disk : Disk lv) : Option (Snapshot lv) := disk.snapshots.argmax Snapshot.blockOffset

/-- Where the blocks are resumed from. -/
def blockOffset (disk : Disk lv) : ℕ := (disk.newest.map Snapshot.blockOffset).getD 0

/-- The ids of the blocks that the database has. -/
def blockIds (disk : Disk lv) : List ℕ := disk.l2Block.map BlockRow.blockId

/-- If the row has another root, the assertion stops the processor. -/
def isPresentBlock (disk : Disk lv) (block : L2Block) : Except Panic Bool :=
  match disk.l2Block.find? fun row => row.blockId = block.blockId % 2 ^ 32 with
  | some row => do
    assert (row.newRoot = block.detail.newRoot) "l2 block generation must be deterministic!"
    pure true
  | none => pure false

/-- The snapshots that a block has left are on the disk at once. -/
def saveSnapshots (disk : Disk lv) (snapshots : List (Snapshot lv)) : Disk lv :=
  { disk with snapshots := disk.snapshots ++ snapshots }

/-- The row of a block, whose id is cut to 32 bits. -/
def saveBlock (disk : Disk lv) (block : L2Block) : Disk lv :=
  { disk with l2Block := disk.l2Block ++ [⟨block.blockId % 2 ^ 32, block.detail.newRoot⟩] }

/-- The task of proving a block. -/
def saveTask (disk : Disk lv) (block : L2Block) : Disk lv :=
  { disk with task := disk.task ++ [block.blockId] }

/-- The state of the newest snapshot, whose accounts were saved in the order of `iteration`. -/
def load (disk : Disk lv) (iteration : Shuffle (ℕ × AccountState)) :
    Except Panic (GlobalState lv) :=
  match disk.newest with
  | none => pure (GlobalState.new lv)
  | some snapshot =>
    unwrap ((GlobalState.new lv).loadPersist (snapshot.state.persist iteration .empty)).toOption

/-- A process over the newest snapshot. -/
def start (disk : Disk lv) (nTx persistEveryNBlock : ℕ)
    (iteration : Shuffle (ℕ × AccountState)) : Except Panic (Process lv) := do
  let s ← disk.load iteration
  pure {
    node := .restart s nTx (disk.newest.map Snapshot.blockOffset) persistEveryNBlock
    phase := .receiving
    oldBlockCheck := true
    channel := []
    saver := .idle }

end Disk

/-- The event is not the next one. -/
def disabled {α : Type} : Except Panic α := .error (.explicit "not enabled")

/-- Popping blocks takes more than one step, and is not a call. -/
def Op.pops : Op → Bool
  | .popAllBlocks => true
  | _ => false

namespace Process

/-! ### The processor -/

/-- A call between two pops, by the thread that receives the messages. -/
def call (p : Process lv) (op : Op) : Except Panic (Process lv) :=
  match p.phase with
  | .receiving =>
    if op.pops then disabled
    else do
      let node ← p.node.step op
      pure { p with node := node }
  | _ => disabled

/-- A pop begins with the first transaction that is buffered. -/
def popAllBlocks (p : Process lv) : Except Panic (Process lv) :=
  match p.phase with
  | .receiving => pure { p with phase := .popping 0 [] }
  | _ => disabled

/-- The loop of `popAllBlocks` forges a block and persists the state if it is due. -/
def forge (p : Process lv) (disk : Disk lv) : Except Panic (Disk lv × Process lv) :=
  let m := p.node.manager
  match p.phase with
  | .popping i blocks =>
    if i + m.nTx ≤ m.bufferedTxs.length then do
      let (block, encoder) ← forgeWithTxs m.blockGenerateNum (m.blockTxs i) m.txDataEncoder
      let m := m.nextBlock encoder
      let snapshots ← m.persistEvery p.node.persistEveryNBlock i
      pure (disk.saveSnapshots snapshots,
        { p with
          node := { p.node with manager := m }
          phase := .popping (i + m.nTx) (blocks ++ [block]) })
    else disabled
  | _ => disabled

/-- The end of `popAllBlocks`. -/
def drain (p : Process lv) : Except Panic (Process lv) :=
  let m := p.node.manager
  match p.phase with
  | .popping i blocks =>
    if i + m.nTx ≤ m.bufferedTxs.length then disabled
    else pure { p with
      node := { p.node with manager := { m with bufferedTxs := m.bufferedTxs.drop i } }
      phase := .handling blocks }
  | _ => disabled

/-- Once a block is new, the next ones are not looked up any more. -/
def isOldBlock (p : Process lv) (disk : Disk lv) (block : L2Block) : Except Panic Bool :=
  if p.oldBlockCheck then disk.isPresentBlock block else pure false

/-- The first block to handle is dropped if it is an old one, or else sent. -/
def check (p : Process lv) (disk : Disk lv) : Except Panic (Process lv) :=
  match p.phase with
  | .handling [] => pure { p with phase := .receiving }
  | .handling (block :: blocks) => do
    let isOld ← p.isOldBlock disk block
    if isOld then pure { p with phase := .handling blocks }
    else pure { p with phase := .sending block blocks, oldBlockCheck := false }
  | _ => disabled

/-- A block that is sent waits in the channel. -/
def send (p : Process lv) : Except Panic (Process lv) :=
  match p.phase with
  | .sending block blocks =>
    pure { p with phase := .handling blocks, channel := p.channel ++ [block] }
  | _ => disabled

/-! ### The saver -/

/-- The thread that saves takes the first block of the channel when it is idle. -/
def receive (p : Process lv) : Except Panic (Process lv) :=
  match p.saver, p.channel with
  | .idle, block :: channel => pure { p with channel := channel, saver := .received block }
  | _, _ => disabled

/-- The row of a block is saved first. -/
def saveBlock (p : Process lv) (disk : Disk lv) : Except Panic (Disk lv × Process lv) :=
  match p.saver with
  | .received block => pure (disk.saveBlock block, { p with saver := .savedBlock block })
  | _ => disabled

/-- The task of a block is saved after its row; a crash may come between them. -/
def saveTask (p : Process lv) (disk : Disk lv) : Except Panic (Disk lv × Process lv) :=
  match p.saver with
  | .savedBlock block => pure (disk.saveTask block, { p with saver := .idle })
  | _ => disabled

/-- The steps of the processor and of the saver, in any order. -/
def step (p : Process lv) (disk : Disk lv) : Event → Except Panic (Disk lv × Process lv)
  | .call op => Prod.mk disk <$> p.call op
  | .popAllBlocks => Prod.mk disk <$> p.popAllBlocks
  | .forge => p.forge disk
  | .drain => Prod.mk disk <$> p.drain
  | .check => Prod.mk disk <$> p.check disk
  | .send => Prod.mk disk <$> p.send
  | .receive => Prod.mk disk <$> p.receive
  | .saveBlock => p.saveBlock disk
  | .saveTask => p.saveTask disk
  | .crash | .start _ => disabled

end Process

namespace System

variable (lv) in
/-- An empty disk, and no process. -/
def init : System lv := ⟨⟨[], [], []⟩, none⟩

/-- What is on the disk survives a crash, the rest is lost. -/
def step (nTx persistEveryNBlock : ℕ) (s : System lv) (event : Event) :
    Except Panic (System lv) :=
  match s.process, event with
  | none, .start iteration => do
    let p ← s.disk.start nTx persistEveryNBlock iteration
    pure ⟨s.disk, some p⟩
  | some _, .crash => pure ⟨s.disk, none⟩
  | some p, event => do
    let (disk, p) ← p.step s.disk event
    pure ⟨disk, some p⟩
  | none, _ => disabled

end System

/-! ## What a step does -/

namespace Process

variable {p p' : Process lv} {disk disk' : Disk lv} {event : Event}

/-- The steps, with what they find. -/
inductive Stepped (p : Process lv) (disk : Disk lv) : Event → Disk lv → Process lv → Prop
  | call {op : Op} {node : Node lv} : p.phase = .receiving → op ≠ .popAllBlocks →
      p.node.step op = .ok node → Stepped p disk (.call op) disk { p with node := node }
  | popAllBlocks : p.phase = .receiving →
      Stepped p disk .popAllBlocks disk { p with phase := .popping 0 [] }
  | forge {i : ℕ} {blocks : List L2Block} {block : L2Block} {encoder : TxDataEncoder}
      {snapshots : List (Snapshot lv)} : p.phase = .popping i blocks →
      i + p.node.manager.nTx ≤ p.node.manager.bufferedTxs.length →
      forgeWithTxs p.node.manager.blockGenerateNum (p.node.manager.blockTxs i)
        p.node.manager.txDataEncoder = .ok (block, encoder) →
      (p.node.manager.nextBlock encoder).persistEvery p.node.persistEveryNBlock i = .ok snapshots →
      Stepped p disk .forge (disk.saveSnapshots snapshots)
        { p with
          node := { p.node with manager := p.node.manager.nextBlock encoder }
          phase := .popping (i + p.node.manager.nTx) (blocks ++ [block]) }
  | drain {i : ℕ} {blocks : List L2Block} : p.phase = .popping i blocks →
      Stepped p disk .drain disk { p with
        node := { p.node with manager :=
          { p.node.manager with bufferedTxs := p.node.manager.bufferedTxs.drop i } }
        phase := .handling blocks }
  | done : p.phase = .handling [] → Stepped p disk .check disk { p with phase := .receiving }
  | skip {block : L2Block} {blocks : List L2Block} : p.phase = .handling (block :: blocks) →
      p.oldBlockCheck = true → disk.isPresentBlock block = .ok true →
      Stepped p disk .check disk { p with phase := .handling blocks }
  | new {block : L2Block} {blocks : List L2Block} : p.phase = .handling (block :: blocks) →
      (p.oldBlockCheck = true → disk.isPresentBlock block = .ok false) →
      Stepped p disk .check disk
        { p with phase := .sending block blocks, oldBlockCheck := false }
  | send {block : L2Block} {blocks : List L2Block} : p.phase = .sending block blocks →
      Stepped p disk .send disk
        { p with phase := .handling blocks, channel := p.channel ++ [block] }
  | receive {block : L2Block} {channel : List L2Block} : p.saver = .idle →
      p.channel = block :: channel →
      Stepped p disk .receive disk { p with channel := channel, saver := .received block }
  | saveBlock {block : L2Block} : p.saver = .received block →
      Stepped p disk .saveBlock (disk.saveBlock block) { p with saver := .savedBlock block }
  | saveTask {block : L2Block} : p.saver = .savedBlock block →
      Stepped p disk .saveTask (disk.saveTask block) { p with saver := .idle }

/-- The check is that of an old block or of a new one. -/
theorem stepped_check (hst : p.check disk = .ok p') : p.Stepped disk .check disk p' := by
  rw [check] at hst
  split at hst
  · next hphase =>
    rw [Exec.pure_eq_ok_iff] at hst
    exact hst ▸ .done hphase
  · next block blocks hphase =>
    obtain ⟨isOld, hold, hst⟩ := Exec.bind_eq_ok_iff.1 hst
    cases isOld with
    | true =>
      obtain rfl := Exec.pure_eq_ok_iff.1 hst
      by_cases hcheck : p.oldBlockCheck = true
      · rw [isOldBlock, if_pos hcheck] at hold
        exact .skip hphase hcheck hold
      · rw [isOldBlock, if_neg hcheck] at hold
        cases hold
    | false =>
      obtain rfl := Exec.pure_eq_ok_iff.1 hst
      refine .new hphase fun hcheck => ?_
      rwa [isOldBlock, if_pos hcheck] at hold
  · cases hst

/-- Forging a block may write a snapshot, and goes on popping. -/
theorem stepped_forge (hst : p.forge disk = .ok (disk', p')) : p.Stepped disk .forge disk' p' := by
  rw [forge] at hst
  split at hst
  · next i blocks hphase =>
    dsimp only at hst
    split at hst
    · next hle =>
      simp only [Exec.bind_eq_ok_iff, Exec.pure_eq_ok_iff, Prod.exists, Prod.mk.injEq] at hst
      obtain ⟨block, encoder, hforge, snapshots, hpersist, rfl, rfl⟩ := hst
      exact .forge hphase hle hforge hpersist
    · cases hst
  · cases hst

omit [FluidexCommon] in
theorem map_mk_eq_ok_iff {x : Except Panic (Process lv)} :
    Prod.mk disk <$> x = .ok (disk', p') ↔ disk = disk' ∧ x = .ok p' := by
  simp only [Exec.map_eq_ok_iff, Prod.mk.injEq]
  constructor
  · rintro ⟨_, hx, rfl, rfl⟩
    exact ⟨rfl, hx⟩
  · rintro ⟨rfl, hx⟩
    exact ⟨p', hx, rfl, rfl⟩

/-- An event that happens is one of the rules of `Stepped`. -/
theorem step_stepped (hst : p.step disk event = .ok (disk', p')) : p.Stepped disk event disk' p' := by
  cases event with
  | call op =>
    obtain ⟨rfl, hrun⟩ := map_mk_eq_ok_iff.1 hst
    rw [call] at hrun
    split at hrun
    · next hphase =>
      split at hrun
      · cases hrun
      · next hpops =>
        simp only [Exec.bind_eq_ok_iff, Exec.pure_eq_ok_iff] at hrun
        obtain ⟨node, hnode, rfl⟩ := hrun
        exact .call hphase (fun hop => hpops (by rw [hop]; rfl)) hnode
    · cases hrun
  | popAllBlocks =>
    obtain ⟨rfl, hrun⟩ := map_mk_eq_ok_iff.1 hst
    rw [popAllBlocks] at hrun
    split at hrun
    · next hphase => exact Exec.pure_eq_ok_iff.1 hrun ▸ .popAllBlocks hphase
    · cases hrun
  | forge => exact stepped_forge hst
  | drain =>
    obtain ⟨rfl, hrun⟩ := map_mk_eq_ok_iff.1 hst
    rw [drain] at hrun
    split at hrun
    · next hphase =>
      dsimp only at hrun
      split at hrun
      · cases hrun
      · exact Exec.pure_eq_ok_iff.1 hrun ▸ .drain hphase
    · cases hrun
  | check =>
    obtain ⟨rfl, hrun⟩ := map_mk_eq_ok_iff.1 hst
    exact stepped_check hrun
  | send =>
    obtain ⟨rfl, hrun⟩ := map_mk_eq_ok_iff.1 hst
    rw [send] at hrun
    split at hrun
    · next hphase => exact Exec.pure_eq_ok_iff.1 hrun ▸ .send hphase
    · cases hrun
  | receive =>
    obtain ⟨rfl, hrun⟩ := map_mk_eq_ok_iff.1 hst
    rw [receive] at hrun
    split at hrun
    · next hsaver hchannel => exact Exec.pure_eq_ok_iff.1 hrun ▸ .receive hsaver hchannel
    · cases hrun
  | saveBlock =>
    rw [step, saveBlock] at hst
    split at hst
    · next hsaver =>
      obtain ⟨rfl, rfl⟩ := Prod.mk.inj (Exec.pure_eq_ok_iff.1 hst)
      exact .saveBlock hsaver
    · cases hst
  | saveTask =>
    rw [step, saveTask] at hst
    split at hst
    · next hsaver =>
      obtain ⟨rfl, rfl⟩ := Prod.mk.inj (Exec.pure_eq_ok_iff.1 hst)
      exact .saveTask hsaver
    · cases hst
  | crash | start _ => cases hst

/-- Forging the blocks one after the other is popping them. -/
theorem run_forge {nTx persistEveryNBlock i j fuel : ℕ} {blocks popped : List L2Block}
    {snapshots : List (Snapshot lv)} {m : ManagerWrapper lv} (hphase : p.phase = .popping i popped)
    (hr : p.node.manager.popLoop p.node.persistEveryNBlock i fuel = .ok ((blocks, snapshots, j), m)) :
    Exec.run (System.step nTx persistEveryNBlock) ⟨disk, some p⟩
        (List.replicate blocks.length .forge) =
      .ok ⟨disk.saveSnapshots snapshots,
        some { p with
          node := { p.node with manager := m }
          phase := .popping j (popped ++ blocks) }⟩ := by
  induction fuel generalizing p disk i popped blocks snapshots with
  | zero =>
    simp only [ManagerWrapper.popLoop, Exec.pure_eq_ok_iff, Prod.mk.injEq] at hr
    obtain ⟨⟨rfl, rfl, rfl⟩, rfl⟩ := hr
    rw [Disk.saveSnapshots, List.append_nil, List.append_nil, ← hphase]
    rfl
  | succ fuel ih =>
    rw [ManagerWrapper.popLoop] at hr
    split at hr
    · next hle =>
      simp only [Exec.bind_eq_ok_iff, Prod.exists, Exec.pure_eq_ok_iff, Prod.mk.injEq] at hr
      obtain ⟨block, encoder, hforge, written, hpersist, blocks', snapshots', j', m₁, hr,
        ⟨rfl, rfl, rfl⟩, rfl⟩ := hr
      -- One block, then the next ones.
      have hstep : p.step disk .forge = .ok (disk.saveSnapshots written,
          { p with
            node := { p.node with manager := p.node.manager.nextBlock encoder }
            phase := .popping (i + p.node.manager.nTx) (popped ++ [block]) }) := by
        rw [step, forge, hphase]
        simp only [if_pos hle, hforge, Exec.ok_bind, hpersist]
        rfl
      have hrest := @ih { p with
        node := { p.node with manager := p.node.manager.nextBlock encoder }
        phase := .popping (i + p.node.manager.nTx) (popped ++ [block]) }
        (disk.saveSnapshots written) _ _ _ _ rfl hr
      rw [Disk.saveSnapshots, Disk.saveSnapshots, List.append_assoc, List.append_assoc] at hrest
      rw [List.length_cons, List.replicate_succ, Exec.run]
      change (p.step disk .forge >>= _) >>= _ = _
      rw [hstep]
      exact hrest
    · simp only [Exec.pure_eq_ok_iff, Prod.mk.injEq] at hr
      obtain ⟨⟨rfl, rfl, rfl⟩, rfl⟩ := hr
      rw [Disk.saveSnapshots, List.append_nil, List.append_nil, ← hphase]
      rfl

end Process

/-! ## Where the blocks are -/

omit [FluidexCommon] in
/-- A snapshot has the number of the next block. -/
theorem ManagerWrapper.persistEvery_blockOffset {m : ManagerWrapper lv} {persistEveryNBlock i : ℕ}
    {snapshot : Snapshot lv} {snapshots : List (Snapshot lv)}
    (hr : m.persistEvery persistEveryNBlock i = .ok snapshots) (hmem : snapshot ∈ snapshots) :
    snapshot.blockOffset = m.blockGenerateNum := by
  obtain ⟨-, -, hpersist⟩ := persistEvery_spec hr hmem
  simp only [persist, Exec.bind_eq_ok_iff, Exec.pure_eq_ok_iff] at hpersist
  obtain ⟨_, -, rfl⟩ := hpersist
  rfl

namespace Disk

variable {disk : Disk lv} {block : L2Block}

omit [FluidexCommon]

/-- The newest snapshot has the greatest number. -/
theorem le_blockOffset {snapshot : Snapshot lv} (h : snapshot ∈ disk.snapshots) :
    snapshot.blockOffset ≤ disk.blockOffset := by
  unfold blockOffset newest
  cases hnew : disk.snapshots.argmax Snapshot.blockOffset with
  | none =>
    rw [List.argmax_eq_none.1 hnew] at h
    cases h
  | some newest => exact List.le_of_mem_argmax h hnew

/-- More snapshots, the offsets of the new ones being bounded. -/
theorem blockOffset_saveSnapshots {snapshots : List (Snapshot lv)} {n : ℕ}
    (hn : disk.blockOffset ≤ n) (hle : ∀ snapshot ∈ snapshots, snapshot.blockOffset ≤ n) :
    disk.blockOffset ≤ (disk.saveSnapshots snapshots).blockOffset ∧
      (disk.saveSnapshots snapshots).blockOffset ≤ n := by
  constructor
  · rw [blockOffset, newest]
    cases hnew : disk.snapshots.argmax Snapshot.blockOffset with
    | none => exact Nat.zero_le _
    | some newest =>
      have hmem : newest ∈ (disk.saveSnapshots snapshots).snapshots :=
        List.mem_append_left _ (List.argmax_mem hnew)
      exact le_blockOffset hmem
  · rw [blockOffset, newest]
    cases hnew : (disk.saveSnapshots snapshots).snapshots.argmax Snapshot.blockOffset with
    | none => exact Nat.zero_le _
    | some newest =>
      rcases List.mem_append.1 (List.argmax_mem hnew) with hmem | hmem
      · exact (le_blockOffset hmem).trans hn
      · exact hle newest hmem

/-- A block is present if there is a row with its id. -/
theorem isPresentBlock_spec {isPresent : Bool} (hr : disk.isPresentBlock block = .ok isPresent) :
    isPresent = true ↔ block.blockId % 2 ^ 32 ∈ disk.blockIds := by
  rw [isPresentBlock] at hr
  rw [blockIds, List.mem_map]
  split at hr
  · next row hrow =>
    obtain ⟨_, -, hr⟩ := Exec.bind_eq_ok_iff.1 hr
    refine ⟨fun _ => ⟨row, List.mem_of_find?_eq_some hrow, ?_⟩, fun _ => Exec.pure_eq_ok_iff.1 hr ▸ rfl⟩
    simpa using List.find?_some hrow
  · next hnone =>
    obtain rfl := Exec.pure_eq_ok_iff.1 hr
    constructor
    · exact fun h => by cases h
    · rintro ⟨row, hmem, hid⟩
      exact absurd hid (by simpa using List.find?_eq_none.1 hnone row hmem)

theorem mem_blockIds_saveBlock {id : ℕ} :
    id ∈ (disk.saveBlock block).blockIds ↔ id ∈ disk.blockIds ∨ id = block.blockId % 2 ^ 32 := by
  simp [blockIds, saveBlock]

end Disk

/-- The blocks that the processor has popped and not yet sent. -/
def Phase.blocks : Phase → List L2Block
  | .receiving => []
  | .popping _ blocks | .handling blocks => blocks
  | .sending block blocks => block :: blocks

/-- The block whose row is to be inserted. -/
def Saver.blocks : Saver → List L2Block
  | .received block => [block]
  | .idle | .savedBlock _ => []

namespace Process

/-- The blocks that are only in memory, or already in the database when the process has
    started, by increasing ids. -/
def pipeline (p : Process lv) : List L2Block := p.saver.blocks ++ (p.channel ++ p.phase.blocks)

/-- Nothing has been sent. -/
structure Silent (p : Process lv) : Prop where
  saver : p.saver = .idle
  channel : p.channel = []
  phase : ∀ block blocks, p.phase ≠ .sending block blocks

omit [FluidexCommon] in
/-- While no block has been sent, those to handle are all there are. -/
theorem Silent.pipeline_eq {p : Process lv} (h : p.Silent) {blocks : List L2Block}
    (hphase : p.phase = .handling blocks) : p.pipeline = blocks := by
  rw [pipeline, h.saver, h.channel, hphase]
  rfl

omit [FluidexCommon] in
/-- A block that was received is the first one still to save. -/
theorem pipeline_of_received {p : Process lv} {block : L2Block} (h : p.saver = .received block) :
    p.pipeline = block :: (p.channel ++ p.phase.blocks) := by
  rw [pipeline, h]
  rfl

/-- The process has generated the blocks from `b` to `a`, which are in the database, and has
    those from `a` on in memory. In the database are the blocks from `b` to `c`. -/
structure Sound (p : Process lv) (disk : Disk lv) (b a c : ℕ) : Prop where
  le : b ≤ a
  rows : ∀ id, b ≤ id → (id ∈ disk.blockIds ↔ id < c)
  pipeline : p.pipeline.map L2Block.blockId = List.range' a p.pipeline.length
  blockGenerateNum : a + p.pipeline.length = p.node.manager.blockGenerateNum
  old : p.oldBlockCheck = true → a ≤ c ∧ p.Silent
  new : p.oldBlockCheck = false → a = c
  le_blockOffset : b ≤ disk.blockOffset
  blockOffset_le : disk.blockOffset ≤ p.node.manager.blockGenerateNum
  fits : p.node.manager.blockGenerateNum ≤ 2 ^ 32

namespace Sound

variable {p p' : Process lv} {disk disk' : Disk lv} {event : Event} {b a c : ℕ}
  {block : L2Block}

omit [FluidexCommon] in
theorem le_rows (h : p.Sound disk b a c) : a ≤ c := by
  cases hold : p.oldBlockCheck with
  | true => exact (h.old hold).1
  | false => exact (h.new hold).le

omit [FluidexCommon] in
/-- Once a block has been sent, the next ones are not checked. -/
theorem new_of_not_silent (h : p.Sound disk b a c) (hp : ¬p.Silent) : p.oldBlockCheck = false := by
  rw [← Bool.not_eq_true]
  exact fun hold => hp (h.old hold).2

omit [FluidexCommon] in
/-- The first of the blocks in memory. -/
theorem head (h : p.Sound disk b a c) {blocks : List L2Block} (hp : p.pipeline = block :: blocks) :
    block.blockId = a ∧ blocks.map L2Block.blockId = List.range' (a + 1) blocks.length ∧
      a + 1 + blocks.length = p.node.manager.blockGenerateNum ∧
      block.blockId % 2 ^ 32 = block.blockId := by
  have hids := h.pipeline
  have hnum := h.blockGenerateNum
  have hfits := h.fits
  rw [hp, List.map_cons, List.length_cons, List.range'_succ, List.cons.injEq] at hids
  rw [hp, List.length_cons] at hnum
  exact ⟨hids.1, hids.2, by omega, Nat.mod_eq_of_lt (by omega)⟩

omit [FluidexCommon] in
/-- What changes neither the blocks in memory nor those in the database. -/
theorem keep (h : p.Sound disk b a c) (hids : disk'.blockIds = disk.blockIds)
    (hsnap : disk'.snapshots = disk.snapshots) (hp : p'.pipeline = p.pipeline)
    (hnum : p'.node.manager.blockGenerateNum = p.node.manager.blockGenerateNum)
    (hcheck : p'.oldBlockCheck = p.oldBlockCheck) (hsilent : p.Silent → p'.Silent) :
    p'.Sound disk' b a c := by
  have hoffset : disk'.blockOffset = disk.blockOffset := by
    rw [Disk.blockOffset, Disk.newest, hsnap]
    rfl
  exact {
    le := h.le
    rows := hids ▸ h.rows
    pipeline := hp ▸ h.pipeline
    blockGenerateNum := by rw [hp, hnum, h.blockGenerateNum]
    old := fun hold => (h.old (hcheck ▸ hold)).imp_right hsilent
    new := fun hnew => h.new (hcheck ▸ hnew)
    le_blockOffset := hoffset ▸ h.le_blockOffset
    blockOffset_le := by rw [hoffset, hnum]; exact h.blockOffset_le
    fits := hnum ▸ h.fits }

/-- The block that is forged is the next one. -/
theorem forge (h : p.Sound disk b a c) {i : ℕ} {blocks : List L2Block} {encoder : TxDataEncoder}
    {snapshots : List (Snapshot lv)} (hphase : p.phase = .popping i blocks)
    (hforge : forgeWithTxs p.node.manager.blockGenerateNum (p.node.manager.blockTxs i)
      p.node.manager.txDataEncoder = .ok (block, encoder))
    (hpersist : (p.node.manager.nextBlock encoder).persistEvery p.node.persistEveryNBlock i =
      .ok snapshots) (hfits : p.node.manager.blockGenerateNum < 2 ^ 32) :
    Sound { p with
      node := { p.node with manager := p.node.manager.nextBlock encoder }
      phase := .popping (i + p.node.manager.nTx) (blocks ++ [block]) }
      (disk.saveSnapshots snapshots) b a c := by
  have hp : p.pipeline ++ [block] = p.saver.blocks ++ (p.channel ++ (blocks ++ [block])) := by
    rw [Process.pipeline, hphase, List.append_assoc, List.append_assoc]
    rfl
  have hoffset := Disk.blockOffset_saveSnapshots (Nat.le_succ_of_le h.blockOffset_le)
    fun snapshot hmem => (ManagerWrapper.persistEvery_blockOffset hpersist hmem).le
  refine ⟨h.le, h.rows, ?_, ?_, fun hold => ⟨(h.old hold).1, ?_⟩, h.new,
    h.le_blockOffset.trans hoffset.1, hoffset.2, hfits⟩
  · change (p.saver.blocks ++ (p.channel ++ (blocks ++ [block]))).map _ = List.range' _
      (p.saver.blocks ++ (p.channel ++ (blocks ++ [block]))).length
    rw [← hp, List.map_append, h.pipeline, List.length_append, List.length_singleton,
      List.range'_concat, one_mul, h.blockGenerateNum, ← (forgeWithTxs_spec hforge).1]
    rfl
  · change a + (p.saver.blocks ++ (p.channel ++ (blocks ++ [block]))).length = _
    rw [← hp, List.length_append, ← Nat.add_assoc, h.blockGenerateNum]
    rfl
  · exact ⟨(h.old hold).2.saver, (h.old hold).2.channel, nofun⟩

omit [FluidexCommon] in
/-- A block that is skipped is in the database. -/
theorem skip (h : p.Sound disk b a c) {blocks : List L2Block}
    (hphase : p.phase = .handling (block :: blocks)) (hcheck : p.oldBlockCheck = true)
    (hpresent : disk.isPresentBlock block = .ok true) :
    Sound { p with phase := .handling blocks } disk b (a + 1) c := by
  have hsilent := (h.old hcheck).2
  obtain ⟨hid, hids, hnum, hmod⟩ := h.head (hsilent.pipeline_eq hphase)
  have hlt : a < c := by
    have hmem := (Disk.isPresentBlock_spec hpresent).1 rfl
    rw [hmod, hid] at hmem
    exact (h.rows a h.le).1 hmem
  have hsilent' : Silent { p with phase := .handling blocks } :=
    ⟨hsilent.saver, hsilent.channel, nofun⟩
  have hp := hsilent'.pipeline_eq rfl
  exact ⟨Nat.le_succ_of_le h.le, h.rows, by rw [hp, hids], by rw [hp]; exact hnum,
    fun _ => ⟨hlt, hsilent'⟩, fun hnew => (by cases hcheck.symm.trans hnew),
    h.le_blockOffset, h.blockOffset_le, h.fits⟩

omit [FluidexCommon] in
/-- The first block that is not in the database comes after all those that are. -/
theorem send_new (h : p.Sound disk b a c) {blocks : List L2Block}
    (hphase : p.phase = .handling (block :: blocks))
    (hpresent : p.oldBlockCheck = true → disk.isPresentBlock block = .ok false) :
    Sound { p with phase := .sending block blocks, oldBlockCheck := false } disk b a c := by
  have hp : Process.pipeline { p with phase := .sending block blocks, oldBlockCheck := false } =
      p.pipeline := by
    rw [Process.pipeline, Process.pipeline, hphase]
    rfl
  have heq : a = c := by
    cases hcheck : p.oldBlockCheck with
    | false => exact h.new hcheck
    | true =>
      obtain ⟨hle, hsilent⟩ := h.old hcheck
      obtain ⟨hid, -, -, hmod⟩ := h.head (hsilent.pipeline_eq hphase)
      refine le_antisymm hle (not_lt.1 fun hlt => ?_)
      have hmem := (h.rows a h.le).2 hlt
      rw [← hid, ← hmod] at hmem
      cases (Disk.isPresentBlock_spec (hpresent hcheck)).2 hmem
  exact ⟨h.le, h.rows, by rw [hp, h.pipeline], by rw [hp]; exact h.blockGenerateNum,
    fun hold => (by cases hold), fun _ => heq, h.le_blockOffset, h.blockOffset_le, h.fits⟩

omit [FluidexCommon] in
/-- The block that is saved is the first one that is not in the database. -/
theorem save_block (h : p.Sound disk b a c) (hsaver : p.saver = .received block) :
    Sound { p with saver := .savedBlock block } (disk.saveBlock block) b (a + 1) (a + 1) := by
  have hnew : p.oldBlockCheck = false := h.new_of_not_silent fun hp => by
    cases hp.saver.symm.trans hsaver
  obtain rfl := h.new hnew
  obtain ⟨hid, hids, hnum, hmod⟩ := h.head (pipeline_of_received hsaver)
  refine ⟨Nat.le_succ_of_le h.le, fun id hle => ?_, hids, hnum,
    fun hold => (by cases hnew.symm.trans hold), fun _ => rfl, h.le_blockOffset,
    h.blockOffset_le, h.fits⟩
  rw [Disk.mem_blockIds_saveBlock, hmod, hid, h.rows id hle]
  omega

/-- Whatever happens next, if the ids fit. -/
theorem step (h : p.Sound disk b a c) (hst : p.Stepped disk event disk' p')
    (hfits : event = .forge → p.node.manager.blockGenerateNum < 2 ^ 32) :
    ∃ a' c', p'.Sound disk' b a' c' := by
  cases hst with
  | call hphase hop hnode =>
    exact ⟨a, c, h.keep rfl rfl rfl (Node.step_blockGenerateNum hop hnode) rfl
      fun hp => ⟨hp.saver, hp.channel, hp.phase⟩⟩
  | popAllBlocks hphase | drain hphase | done hphase =>
    -- the process goes on to another phase, with the same blocks
    refine ⟨a, c, h.keep rfl rfl ?_ rfl rfl fun hp => ⟨hp.saver, hp.channel, nofun⟩⟩
    rw [Process.pipeline, Process.pipeline, hphase]
    rfl
  | send hphase =>
    refine ⟨a, c, h.keep rfl rfl ?_ rfl rfl fun hp => absurd hphase (hp.phase _ _)⟩
    rw [Process.pipeline, Process.pipeline, hphase]
    simp [Phase.blocks]
  | receive hsaver hchannel =>
    refine ⟨a, c, h.keep rfl rfl ?_ rfl rfl fun hp => ?_⟩
    · rw [Process.pipeline, Process.pipeline, hsaver, hchannel]
      rfl
    · cases hp.channel.symm.trans hchannel
  | saveTask hsaver =>
    refine ⟨a, c, h.keep rfl rfl ?_ rfl rfl fun hp => ?_⟩
    · rw [Process.pipeline, Process.pipeline, hsaver]
      rfl
    · cases hp.saver.symm.trans hsaver
  | forge hphase hle hforge hpersist => exact ⟨a, c, h.forge hphase hforge hpersist (hfits rfl)⟩
  | skip hphase hcheck hpresent => exact ⟨a + 1, c, h.skip hphase hcheck hpresent⟩
  | new hphase hpresent => exact ⟨a, c, h.send_new hphase hpresent⟩
  | saveBlock hsaver => exact ⟨a + 1, a + 1, h.save_block hsaver⟩

/-- A process that has just been started. -/
theorem start {nTx persistEveryNBlock : ℕ} {iteration : Shuffle (ℕ × AccountState)}
    (hr : disk.start nTx persistEveryNBlock iteration = .ok p) (hb : b ≤ disk.blockOffset)
    (hrows : ∀ id, b ≤ id → (id ∈ disk.blockIds ↔ id < c)) (hc : disk.blockOffset ≤ c)
    (hfits : disk.blockOffset ≤ 2 ^ 32) : p.Sound disk b disk.blockOffset c := by
  simp only [Disk.start, Exec.bind_eq_ok_iff, Exec.pure_eq_ok_iff] at hr
  obtain ⟨s, -, rfl⟩ := hr
  exact ⟨hb, hrows, rfl, rfl, fun _ => ⟨hc, rfl, rfl, fun _ _ h => (by cases h)⟩,
    fun hnew => (by cases hnew), hb, le_rfl, hfits⟩

end Sound

end Process

/-! ## Runs -/

namespace System

variable {s s' : System lv} {nTx persistEveryNBlock : ℕ} {event : Event}

/-- The steps of the system. -/
inductive Stepped (nTx persistEveryNBlock : ℕ) : System lv → Event → System lv → Prop
  | start {disk : Disk lv} {iteration : Shuffle (ℕ × AccountState)} {p : Process lv} :
      disk.start nTx persistEveryNBlock iteration = .ok p →
      Stepped nTx persistEveryNBlock ⟨disk, none⟩ (.start iteration) ⟨disk, some p⟩
  | crash {disk : Disk lv} {p : Process lv} :
      Stepped nTx persistEveryNBlock ⟨disk, some p⟩ .crash ⟨disk, none⟩
  | run {disk disk' : Disk lv} {p p' : Process lv} {event : Event} :
      p.Stepped disk event disk' p' →
      Stepped nTx persistEveryNBlock ⟨disk, some p⟩ event ⟨disk', some p'⟩

/-- An event that happens is one of the rules of `Stepped`. -/
theorem step_stepped (hst : s.step nTx persistEveryNBlock event = .ok s') :
    Stepped nTx persistEveryNBlock s event s' := by
  obtain ⟨disk, process⟩ := s
  cases process with
  | none =>
    cases event with
    | start iteration =>
      simp only [step, Exec.bind_eq_ok_iff, Exec.pure_eq_ok_iff] at hst
      obtain ⟨p, hr, rfl⟩ := hst
      exact .start hr
    | _ => cases hst
  | some p =>
    by_cases hcrash : event = .crash
    · subst hcrash
      exact Exec.pure_eq_ok_iff.1 hst ▸ .crash
    · have hrun : (p.step disk event >>= fun r => pure ⟨r.1, some r.2⟩) = .ok s' := by
        cases event with
        | crash => exact absurd rfl hcrash
        | _ => exact hst
      simp only [Exec.bind_eq_ok_iff, Exec.pure_eq_ok_iff, Prod.exists] at hrun
      obtain ⟨disk', p', hrun, rfl⟩ := hrun
      exact .run (Process.step_stepped hrun)

/-- Everything before some block is in the database, or else in memory, and nothing after. -/
def Gapless (s : System lv) : Prop :=
  match s.process with
  | none => ∃ c, (∀ id, id ∈ s.disk.blockIds ↔ id < c) ∧ s.disk.blockOffset ≤ c ∧
    s.disk.blockOffset ≤ 2 ^ 32
  | some p => ∃ a c, p.Sound s.disk 0 a c

end System

/-- All the blocks before the newest snapshot are in the database. -/
def Disk.NoneLost (disk : Disk lv) : Prop := ∀ id < disk.blockOffset, id ∈ disk.blockIds

/-- No block that is in memory is before the newest snapshot, unless its row is there. -/
def Process.Saved (p : Process lv) (disk : Disk lv) : Prop :=
  ∀ block ∈ p.pipeline, block.blockId < disk.blockOffset → block.blockId ∈ disk.blockIds

omit [FluidexCommon] in
/-- If everything before some block is in the database or in memory, what is before the
    newest snapshot is in the database unless it is in memory. -/
theorem Process.Sound.noneLost_iff_saved {p : Process lv} {disk : Disk lv} {a c : ℕ}
    (h : p.Sound disk 0 a c) : disk.NoneLost ↔ p.Saved disk := by
  have hrows : ∀ id, id ∈ disk.blockIds ↔ id < c := fun id => h.rows id (Nat.zero_le id)
  refine ⟨fun hall block _ hlt => hall block.blockId hlt, fun hsaved id hlt => ?_⟩
  rw [hrows]
  refine hlt.trans_le (not_lt.1 fun hc => ?_)
  -- The first block that is not in the database is in memory.
  have hmem : c ∈ p.pipeline.map L2Block.blockId := by
    have hoffset := h.blockOffset_le
    have hnum := h.blockGenerateNum
    rw [h.pipeline, List.mem_range'_1]
    exact ⟨h.le_rows, by omega⟩
  obtain ⟨block, hblock, rfl⟩ := List.mem_map.1 hmem
  exact lt_irrefl _ ((hrows _).1 (hsaved block hblock hc))

/-- The id of the next block fits in the table. -/
def Event.Fits (s : System lv) : Event → Prop
  | .forge => ∀ p ∈ s.process, p.node.manager.blockGenerateNum < 2 ^ 32
  | _ => True

/-- If the process crashes, no block before the newest snapshot is only in memory. -/
def Event.LosesNone (s : System lv) : Event → Prop
  | .crash => ∀ p ∈ s.process, p.Saved s.disk
  | _ => True

variable {s : System lv} {nTx persistEveryNBlock : ℕ}

/-- No event leaves a gap, unless a crash loses blocks that a snapshot counts. -/
theorem System.Gapless.step {s' : System lv} {event : Event} (h : s.Gapless)
    (hfits : event.Fits s) (hcrash : event.LosesNone s)
    (hst : s.step nTx persistEveryNBlock event = .ok s') : s'.Gapless := by
  cases System.step_stepped hst with
  | start hr =>
    obtain ⟨c, hrows, hc, hfits⟩ := h
    exact ⟨_, c, .start hr (Nat.zero_le _) (fun id _ => hrows id) hc hfits⟩
  | @crash disk p =>
    obtain ⟨a, c, h⟩ := h
    have hrows : ∀ id, id ∈ disk.blockIds ↔ id < c := fun id => h.rows id (Nat.zero_le id)
    refine ⟨c, hrows, not_lt.1 fun hc => ?_, h.blockOffset_le.trans h.fits⟩
    exact lt_irrefl c ((hrows c).1 (h.noneLost_iff_saved.2 (hcrash p rfl) c hc))
  | run hrun =>
    obtain ⟨a, c, h⟩ := h
    exact h.step hrun fun hforge => by
      subst hforge
      exact hfits _ rfl

/-- However the processor, the saver, the crashes and the restarts are interleaved: at a
    crash point, the blocks before the newest snapshot are all in the database exactly if none
    of them is only in memory. If this is so at every crash, no block is ever lost and there
    is no gap in the database. -/
theorem noneLost_iff (h : Exec.Reachable (System.step nTx persistEveryNBlock)
      (fun s event => event.Fits s ∧ event.LosesNone s) (System.init lv) s) :
    (∃ c, ∀ id, id ∈ s.disk.blockIds ↔ id < c) ∧
      (s.process = none → s.disk.NoneLost) ∧
      ∀ p, s.process = some p → (s.disk.NoneLost ↔ p.Saved s.disk) := by
  have hgapless : s.Gapless := by
    refine h.invariant ⟨0, fun id => ⟨fun hid => (by cases hid), nofun⟩, le_rfl, Nat.zero_le _⟩ ?_
    exact fun s event s' _ hs hevent hst => hs.step hevent.1 hevent.2 hst
  obtain ⟨disk, process⟩ := s
  cases process with
  | none =>
    obtain ⟨c, hrows, hc, -⟩ := hgapless
    exact ⟨⟨c, hrows⟩, fun _ id hid => (hrows id).2 (hid.trans_le hc), nofun⟩
  | some p =>
    obtain ⟨a, c, hsound⟩ := hgapless
    refine ⟨⟨c, fun id => hsound.rows id (Nat.zero_le id)⟩, nofun, fun p' hp => ?_⟩
    obtain rfl := Option.some.inj hp
    exact hsound.noneLost_iff_saved

/-! ## Tasks -/

/-- The blocks with a row are those with a task, and the one between its two inserts. -/
structure Process.Tasked (p : Process lv) (disk : Disk lv) : Prop where
  rows : ∀ id, id ∈ disk.blockIds ↔
    id ∈ disk.task ∨ ∃ block, p.saver = .savedBlock block ∧ block.blockId = id
  missing : ∀ block, p.saver = .savedBlock block → block.blockId ∉ disk.task

namespace Process.Tasked

variable {p p' : Process lv} {disk disk' : Disk lv}

omit [FluidexCommon] in
/-- The rows and the tasks agree, unless a block is between the two. -/
theorem rows_of_ne (h : p.Tasked disk) (hp : ∀ block, p.saver ≠ .savedBlock block) (id : ℕ) :
    id ∈ disk.blockIds ↔ id ∈ disk.task := by
  rw [h.rows, or_iff_left]
  rintro ⟨block, hsaver, -⟩
  exact hp block hsaver

omit [FluidexCommon] in
/-- Every row has a task, except between the two inserts. -/
theorem forall_mem_task_iff (h : p.Tasked disk) :
    (∀ id ∈ disk.blockIds, id ∈ disk.task) ↔ ∀ block, p.saver ≠ .savedBlock block := by
  refine ⟨fun hall block hsaver => ?_, fun hp id => (h.rows_of_ne hp id).1⟩
  exact h.missing block hsaver (hall _ ((h.rows _).2 (.inr ⟨block, hsaver, rfl⟩)))

omit [FluidexCommon] in
/-- What saves nothing keeps rows and tasks as they are. -/
theorem keep (h : p.Tasked disk) (hids : disk'.blockIds = disk.blockIds)
    (htask : disk'.task = disk.task) (hsaver : p'.saver = p.saver) : p'.Tasked disk' where
  rows id := by
    rw [hids, htask, hsaver]
    exact h.rows id
  missing block := by
    rw [htask, hsaver]
    exact h.missing block

/-- No row is inserted twice. -/
theorem step (h : p.Tasked disk) {b a c : ℕ} (hs : p.Sound disk b a c) {event : Event}
    (hst : p.Stepped disk event disk' p') : p'.Tasked disk' := by
  cases hst with
  | call _ _ _ | popAllBlocks _ | drain _ | done _ | skip _ _ _ | new _ _ | send _ =>
    exact h.keep rfl rfl rfl
  | forge _ _ _ _ => exact h.keep rfl rfl rfl
  | @receive block channel hsaver _ =>
    have hne : ∀ block, p.saver ≠ .savedBlock block := fun block heq => by
      cases hsaver.symm.trans heq
    refine ⟨fun id => ?_, nofun⟩
    rw [h.rows_of_ne hne, or_iff_left]
    rintro ⟨_, heq, -⟩
    cases heq
  | @saveBlock block hsaver =>
    have hne : ∀ block, p.saver ≠ .savedBlock block := fun block heq => by
      cases hsaver.symm.trans heq
    have hnew : p.oldBlockCheck = false := hs.new_of_not_silent fun hp => by
      cases hp.saver.symm.trans hsaver
    obtain rfl := hs.new hnew
    obtain ⟨hid, -, -, hmod⟩ := hs.head (pipeline_of_received hsaver)
    -- The row is a new one.
    have hfresh : block.blockId ∉ disk.task := by
      rw [← h.rows_of_ne hne, hid, hs.rows a hs.le]
      exact lt_irrefl a
    refine ⟨fun id => ?_, fun block' heq => ?_⟩
    · rw [Disk.mem_blockIds_saveBlock, hmod, h.rows_of_ne hne]
      refine or_congr_right ⟨fun hid => ⟨block, rfl, hid.symm⟩, ?_⟩
      rintro ⟨_, heq, rfl⟩
      rw [← Saver.savedBlock.inj heq]
    · rw [← Saver.savedBlock.inj heq]
      exact hfresh
  | @saveTask block hsaver =>
    refine ⟨fun id => ?_, nofun⟩
    change id ∈ disk.blockIds ↔ id ∈ disk.task ++ [block.blockId] ∨ _
    rw [h.rows, List.mem_append, List.mem_singleton, hsaver, or_assoc]
    refine or_congr_right ⟨?_, ?_⟩
    · rintro ⟨_, heq, rfl⟩
      rw [← Saver.savedBlock.inj heq]
      exact .inl rfl
    · rintro (rfl | ⟨_, heq, -⟩)
      · exact ⟨block, rfl, rfl⟩
      · cases heq

end Process.Tasked

/-- The process does not crash between the two inserts. -/
def Event.BetweenBlocks (s : System lv) : Event → Prop
  | .crash => ∀ p ∈ s.process, ∀ block, p.saver ≠ .savedBlock block
  | _ => True

/-- Every row has a task, or the process is about to insert it. -/
def System.Tasked (s : System lv) : Prop :=
  match s.process with
  | none => (∀ id, id ∈ s.disk.blockIds ↔ id ∈ s.disk.task) ∧
    (∃ c, ∀ id, s.disk.blockOffset ≤ id → (id ∈ s.disk.blockIds ↔ id < c)) ∧
    s.disk.blockOffset ≤ 2 ^ 32
  | some p => p.Tasked s.disk ∧ ∃ b a c, p.Sound s.disk b a c

/-- No event leaves a row without a task, unless a crash comes between the two. -/
theorem System.Tasked.step {s' : System lv} {event : Event} (h : s.Tasked)
    (hfits : event.Fits s) (hcrash : event.BetweenBlocks s)
    (hst : s.step nTx persistEveryNBlock event = .ok s') : s'.Tasked := by
  cases System.step_stepped hst with
  -- A new process has nothing to save, so the disk decides.
  | @start disk iteration p hr =>
    obtain ⟨htask, ⟨c, hrows⟩, hfits⟩ := h
    have hsaver : p.saver = .idle := by
      simp only [Disk.start, Exec.bind_eq_ok_iff, Exec.pure_eq_ok_iff] at hr
      obtain ⟨s, -, rfl⟩ := hr
      rfl
    refine ⟨⟨fun id => ?_, fun block heq => ?_⟩, _, _, max c disk.blockOffset,
      .start hr le_rfl (fun id hid => ?_) (le_max_right _ _) hfits⟩
    · rw [htask, or_iff_left]
      rintro ⟨_, heq, -⟩
      cases hsaver.symm.trans heq
    · cases hsaver.symm.trans heq
    · rw [hrows id hid]
      exact (lt_max_iff.trans (or_iff_left (not_lt.2 hid))).symm
  | @crash disk p =>
    obtain ⟨htask, b, a, c, h⟩ := h
    -- The crash does not come between a row and its task.
    exact ⟨htask.rows_of_ne (hcrash p rfl), ⟨c, fun id hid => h.rows id (h.le_blockOffset.trans hid)⟩,
      h.blockOffset_le.trans h.fits⟩
  | run hrun =>
    obtain ⟨htask, b, a, c, h⟩ := h
    refine ⟨htask.step h hrun, b, h.step hrun fun hforge => ?_⟩
    subst hforge
    exact hfits _ rfl

/-- The next block is looked up, and is skipped. -/
structure System.Skips (s : System lv) (p : Process lv) (block : L2Block)
    (blocks : List L2Block) : Prop where
  process : s.process = some p
  phase : p.phase = .handling (block :: blocks)
  oldBlockCheck : p.oldBlockCheck = true
  isPresent : s.disk.isPresentBlock block = .ok true

/-- However the processor, the saver, the crashes and the restarts are interleaved: at a
    crash point, every block with a row has a task exactly if the saver is not between its two
    inserts. If this is so at every crash, every block that is skipped has a task. -/
theorem skipped_has_task (h : Exec.Reachable (System.step nTx persistEveryNBlock)
      (fun s event => event.Fits s ∧ event.BetweenBlocks s) (System.init lv) s) :
    (s.process = none → ∀ id, id ∈ s.disk.blockIds ↔ id ∈ s.disk.task) ∧
      ∀ p, s.process = some p →
        ((∀ id ∈ s.disk.blockIds, id ∈ s.disk.task) ↔ ∀ block, p.saver ≠ .savedBlock block) ∧
        ∀ block blocks, s.Skips p block blocks → block.blockId ∈ s.disk.task := by
  have htasked : s.Tasked := by
    refine h.invariant ⟨fun _ => Iff.rfl, ⟨0, fun id _ => ⟨fun hid => (by cases hid), nofun⟩⟩,
      Nat.zero_le _⟩ ?_
    exact fun s event s' _ hs hevent hst => hs.step hevent.1 hevent.2 hst
  obtain ⟨disk, process⟩ := s
  cases process with
  | none => exact ⟨fun _ => htasked.1, nofun⟩
  | some p =>
    obtain ⟨htask, b, a, c, hs⟩ := htasked
    refine ⟨nofun, fun p' hp => ?_⟩
    obtain rfl := Option.some.inj hp
    refine ⟨htask.forall_mem_task_iff, fun block blocks ⟨_, hphase, hcheck, hpresent⟩ => ?_⟩
    have hsilent := (hs.old hcheck).2
    obtain ⟨-, -, -, hmod⟩ := hs.head (hsilent.pipeline_eq hphase)
    have hmem := (Disk.isPresentBlock_spec hpresent).1 rfl
    rw [hmod] at hmem
    exact (htask.rows_of_ne (fun block heq => by cases hsilent.saver.symm.trans heq) _).1 hmem

/-- The block that is skipped next, if one is. -/
def System.skipped (s : System lv) : Except Panic (Process lv × L2Block × List L2Block) := do
  let p ← unwrap s.process
  match p.phase with
  | .handling (block :: blocks) => do
    assert (p.oldBlockCheck = true) "new"
    let isPresent ← s.disk.isPresentBlock block
    assert (isPresent = true) "row"
    pure (p, block, blocks)
  | _ => disabled

omit [FluidexCommon] in
/-- The block that is dropped has a row already. -/
theorem System.skips_of_skipped {p : Process lv} {block : L2Block} {blocks : List L2Block}
    (h : s.skipped = .ok (p, block, blocks)) : s.Skips p block blocks := by
  simp only [skipped, Exec.bind_eq_ok_iff, Exec.unwrap_eq_ok_iff] at h
  obtain ⟨p', hp, h⟩ := h
  split at h
  · next hphase =>
    simp only [Exec.bind_eq_ok_iff, Exec.assert_eq_ok_iff, Exec.pure_eq_ok_iff, Prod.mk.injEq] at h
    obtain ⟨_, hcheck, isPresent, hpresent, _, rfl, rfl, rfl, rfl⟩ := h
    exact ⟨hp, hphase, hcheck, hpresent⟩
  · cases h

instance (s : System lv) (event : Event) : Decidable (event.Fits s ∧ event.LosesNone s) :=
  match event with
  | .forge => decidable_of_iff (∀ p ∈ s.process, p.node.manager.blockGenerateNum < 2 ^ 32)
      ⟨fun h => ⟨h, trivial⟩, And.left⟩
  | .crash => decidable_of_iff (∀ p ∈ s.process, ∀ block ∈ p.pipeline,
      block.blockId < s.disk.blockOffset → block.blockId ∈ s.disk.blockIds)
      ⟨fun h => ⟨trivial, h⟩, And.right⟩
  | .call _ | .popAllBlocks | .drain | .check | .send | .receive | .saveBlock | .saveTask
  | .start _ => .isTrue ⟨trivial, trivial⟩

instance (saver : Saver) : Decidable (∀ block, saver ≠ .savedBlock block) :=
  match saver with
  | .savedBlock block => .isFalse fun hne => hne block rfl
  | .idle | .received _ => .isTrue nofun

instance (s : System lv) (event : Event) : Decidable (event.Fits s ∧ event.BetweenBlocks s) :=
  match event with
  | .forge => decidable_of_iff (∀ p ∈ s.process, p.node.manager.blockGenerateNum < 2 ^ 32)
      ⟨fun h => ⟨h, trivial⟩, And.left⟩
  | .crash => decidable_of_iff (∀ p ∈ s.process, ∀ block, p.saver ≠ .savedBlock block)
      ⟨fun h => ⟨trivial, h⟩, And.right⟩
  | .call _ | .popAllBlocks | .drain | .check | .send | .receive | .saveBlock | .saveTask
  | .start _ => .isTrue ⟨trivial, trivial⟩

end Saving

/-- A block of one message is generated. -/
def forgeEvents : List Event :=
  [.start .id, .call (.keyUpdate ⟨0, ⟨1, 1, 5⟩⟩ (some 0)), .popAllBlocks, .forge]

/-- Its row is inserted. -/
def saveEvents : List Event := [.drain, .check, .send, .receive, .saveBlock]

section Events

attribute [local instance] FluidexCommon.sample

/-- A crash after the row is inserted. -/
theorem noneLost_iff_saveEvents : ∃ s, Exec.run (System.step 1 1) (System.init Levels.small)
    (forgeEvents ++ saveEvents ++ [.crash]) = .ok s ∧ s.disk.NoneLost := by
  obtain ⟨s, hs⟩ := Exec.exists_eq_ok (do
    let s ← Exec.run (Exec.guarded (System.step 1 1) (.explicit "lost")
      fun s event => event.Fits s ∧ event.LosesNone s) (System.init Levels.small)
      (forgeEvents ++ saveEvents ++ [.crash])
    assert s.process.isNone "process"
    pure s) (by decide +kernel)
  simp only [Exec.bind_eq_ok_iff, Exec.assert_eq_ok_iff, Exec.pure_eq_ok_iff] at hs
  obtain ⟨s, hs, _, hnone, rfl⟩ := hs
  obtain ⟨hreach, hrun⟩ := Exec.Reachable.init.of_guarded hs
  exact ⟨s, hrun, (noneLost_iff hreach).2.1 (Option.isNone_iff_eq_none.1 hnone)⟩

/-- A crash after the snapshot is written. -/
theorem not_noneLost_forgeEvents : ∃ s, Exec.run (System.step 1 1) (System.init Levels.small)
    (forgeEvents ++ [.crash]) = .ok s ∧ s.disk.blockOffset = 1 ∧ s.disk.blockIds = [] ∧
      ¬s.disk.NoneLost := by
  obtain ⟨s, hs⟩ := Exec.exists_eq_ok (do
    let s ← Exec.run (System.step 1 1) (System.init Levels.small) (forgeEvents ++ [.crash])
    assert (s.disk.blockOffset = 1 ∧ s.disk.blockIds = []) "rows"
    pure s) (by decide +kernel)
  simp only [Exec.bind_eq_ok_iff, Exec.assert_eq_ok_iff, Exec.pure_eq_ok_iff] at hs
  obtain ⟨s, hs, _, ⟨hoffset, hids⟩, rfl⟩ := hs
  refine ⟨s, hs, hoffset, hids, fun hall => ?_⟩
  have hmem := hall 0 (by rw [hoffset]; exact Nat.one_pos)
  rw [hids] at hmem
  cases hmem

/-- The block is generated again, after a crash between the two inserts or after them. -/
def resumeEvents (crash : List Event) : List Event :=
  forgeEvents ++ saveEvents ++ crash ++ forgeEvents ++ [.drain]

/-- After a crash after the two inserts, the block is skipped and has a task. -/
theorem skipped_has_task_resumeEvents : ∃ s p block blocks,
    Exec.run (System.step 1 9) (System.init Levels.small) (resumeEvents [.saveTask, .crash]) =
        .ok s ∧ s.Skips p block blocks ∧ block.blockId ∈ s.disk.task := by
  obtain ⟨⟨s, p, block, blocks⟩, hs⟩ := Exec.exists_eq_ok (do
    let s ← Exec.run (Exec.guarded (System.step 1 9) (.explicit "between")
      fun s event => event.Fits s ∧ event.BetweenBlocks s) (System.init Levels.small)
      (resumeEvents [.saveTask, .crash])
    let r ← s.skipped
    pure (s, r)) (by decide +kernel)
  simp only [Exec.bind_eq_ok_iff, Exec.pure_eq_ok_iff, Prod.mk.injEq] at hs
  obtain ⟨s, hs, r, hskip, rfl, rfl⟩ := hs
  obtain ⟨hreach, hrun⟩ := Exec.Reachable.init.of_guarded hs
  have h := System.skips_of_skipped hskip
  exact ⟨s, p, block, blocks, hrun, h, ((skipped_has_task hreach).2 p h.process).2 block blocks h⟩

/-- After a crash between the two inserts, the block is skipped, and has no task. -/
theorem not_mem_task_resumeEvents : ∃ s p block blocks,
    Exec.run (System.step 1 9) (System.init Levels.small) (resumeEvents [.crash]) = .ok s ∧
      s.Skips p block blocks ∧ block.blockId ∉ s.disk.task := by
  obtain ⟨⟨s, p, block, blocks⟩, hs⟩ := Exec.exists_eq_ok (do
    let s ← Exec.run (System.step 1 9) (System.init Levels.small) (resumeEvents [.crash])
    let r ← s.skipped
    assert (r.2.1.blockId ∉ s.disk.task) "task"
    pure (s, r)) (by decide +kernel)
  simp only [Exec.bind_eq_ok_iff, Exec.assert_eq_ok_iff, Exec.pure_eq_ok_iff, Prod.mk.injEq] at hs
  obtain ⟨s, hrun, r, hskip, _, htask, rfl, rfl⟩ := hs
  exact ⟨s, p, block, blocks, hrun, System.skips_of_skipped hskip, htask⟩

end Events

end Rollup
