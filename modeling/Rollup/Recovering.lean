import Rollup.Following
import Rollup.Operations

/-!
# Recovering from crashes

The system with what its process has still to receive (`Service`): a process that is started over
the newest snapshot receives what comes after the message of the snapshot. However the processor,
the saver, the crashes and the restarts are interleaved, the process follows the loop that is not
stopped (`Service.Recovered`).

* The rows are those of blocks that this loop returns, and none of them is found with another root
  (`returned_of_run`).
* If no block is lost at a crash, they are those of the first ones in order, and of all of them
  once everything has been received and saved (`table_of_run`).
-/

namespace Rollup

section Recovering

variable [FluidexCommon] {lv : Levels} [RustDecimal] [Babyjubjub] [DecimalExt] [UserKey]

/-! ## The service -/

namespace Received

/-- Somebody transfers to themselves. -/
def IsSelfTransfer : Received → Prop
  | .msg message _ => message.IsSelfTransfer
  | .timeout => False

/-- The message, with its tasks in another order. -/
def scheduled : Received → Option (Shuffle Task) → Received
  | .msg message _, some schedule => .msg message schedule
  | received, _ => received

end Received

/-- What a process receives that is started over the newest snapshot, `log` being everything that
    there is to receive. -/
def Disk.remaining (disk : Disk lv) (log : List Received) : List Received :=
  match disk.newest with
  | none => log
  | some snapshot => after snapshot.kafkaOffset log

/-- An iteration of the loop up to the blocks: something is received and handled. -/
def Process.receiveMsg (p : Process lv) (received : Received) : Except Panic (Process lv) :=
  match p.phase with
  | .receiving => do
    let node ← p.node.receive received
    pure { p with node := node, phase := .popping 0 [] }
  | _ => disabled

/-- The block whose row is inserted. -/
def Process.inserted (p : Process lv) : Event → List L2Block
  | .saveBlock => p.saver.blocks
  | _ => []

/-- The system, with what its process has still to receive, and the blocks whose rows have been
    inserted. -/
structure Service (lv : Levels) where
  system : System lv
  pending : List Received
  table : List L2Block

/-- What happens next. The tasks of a message may run in another order than they did before, and
    the loop may wait in vain for more than there is to receive. -/
inductive ServiceEvent where
  | receive (schedule : Option (Shuffle Task))
  | timeout
  | system (event : Event)

/-- What is received and popped is not a step of its own here. -/
def Event.calls : Event → Bool
  | .call _ | .popAllBlocks => true
  | _ => false

namespace Service

variable (lv) in
/-- Nothing has been received, and nothing has been saved. -/
def init : Service lv := ⟨.init lv, [], []⟩

/-- A process that is started has still to receive what comes after the newest snapshot. -/
def pendingAfter (s : Service lv) (log : List Received) : Event → List Received
  | .start _ => s.system.disk.remaining log
  | _ => s.pending

/-- The block whose row is inserted. -/
def inserted (s : Service lv) (event : Event) : List L2Block :=
  (s.system.process.map fun p => p.inserted event).getD []

/-- The messages still to come are those after the snapshot that the process was started from. -/
def step (log : List Received) (nTx persistEveryNBlock : ℕ) (s : Service lv) :
    ServiceEvent → Except Panic (Service lv)
  | .receive schedule => do
    let p ← unwrap s.system.process
    let received ← unwrap s.pending.head?
    let p ← p.receiveMsg (received.scheduled schedule)
    pure ⟨{ s.system with process := some p }, s.pending.tail, s.table⟩
  | .timeout => do
    let p ← unwrap s.system.process
    let p ← p.receiveMsg .timeout
    pure ⟨{ s.system with process := some p }, s.pending, s.table⟩
  | .system event =>
    if event.calls then disabled
    else do
      let system ← s.system.step nTx persistEveryNBlock event
      pure ⟨system, s.pendingAfter log event, s.table ++ s.inserted event⟩

end Service

/-! ## What a step keeps -/

section Recovered

variable {log pending : List Received} {nTx persistEveryNBlock : ℕ}

/-- The row of a block in the database; its id is cut to 32 bits. -/
def L2Block.row (block : L2Block) : BlockRow := ⟨block.blockId % 2 ^ 32, block.detail.newRoot⟩

/-- The node without the transactions that are in a block. -/
def Node.drained (n : Node lv) (i : ℕ) : Node lv :=
  { n with manager := { n.manager with bufferedTxs := n.manager.bufferedTxs.drop i } }

/-- The block is one of the loop that is not stopped, and its number fits in a row. -/
def L2Block.Fitting (log : List Received) (nTx persistEveryNBlock : ℕ) (lv : Levels)
    (block : L2Block) : Prop :=
  Returned log nTx persistEveryNBlock lv block ∧ block.blockId < 2 ^ 32

/-- The snapshot is one of a run over the log, of a state the program can go on from. -/
def Snapshot.Usable (log : List Received) (nTx persistEveryNBlock : ℕ)
    (snapshot : Snapshot lv) : Prop :=
  snapshot.Recorded log nTx persistEveryNBlock ∧ snapshot.state.HasLedger

namespace Process

/-- The process follows the loop that is not stopped. While it pops, it does so without the
    transactions that are in a block, or has a block to forge. -/
def InLog (log : List Received) (nTx persistEveryNBlock : ℕ) (p : Process lv)
    (pending : List Received) : Prop :=
  match p.phase with
  | .popping i _ =>
    (∃ k m, Follows log nTx persistEveryNBlock (p.node.drained i) pending k m) ∨
    (i = 0 ∧ ∃ k received m m₁,
      Completes log nTx persistEveryNBlock p.node pending k received m m₁)
  | .receiving | .handling _ | .sending _ _ =>
    ∃ k m, Follows log nTx persistEveryNBlock p.node pending k m

/-- The process is where a run over the log would be, with the blocks of that run to save. -/
structure Recovered (log : List Received) (nTx persistEveryNBlock : ℕ) (p : Process lv)
    (pending : List Received) : Prop where
  inLog : p.InLog log nTx persistEveryNBlock pending
  hasLedger : p.node.state.HasLedger
  fitting : ∀ block ∈ p.pipeline, block.Fitting log nTx persistEveryNBlock lv

omit [FluidexCommon] [RustDecimal] [Babyjubjub] [DecimalExt] [UserKey] in
/-- There is no complete block left when the loop of `popAllBlocks` ends. -/
theorem lt_of_drain {p p' : Process lv} (hr : p.drain = .ok p') {i : ℕ} {blocks : List L2Block}
    (hphase : p.phase = .popping i blocks) :
    p.node.manager.bufferedTxs.length < i + p.node.manager.nTx := by
  rw [drain, hphase] at hr
  dsimp only at hr
  split at hr
  · cases hr
  · next hlt => exact not_le.1 hlt

namespace Recovered

variable {p p' : Process lv} {disk disk' : Disk lv} {event : Event}

theorem nTx_eq (hpos : 0 < nTx) (h : p.Recovered log nTx persistEveryNBlock pending) :
    p.node.manager.nTx = nTx := by
  have hinLog := h.inLog
  unfold InLog at hinLog
  split at hinLog
  · rcases hinLog with ⟨k, m, hm⟩ | ⟨-, k, received, m, m₁, hm⟩
    · exact (hm.idle hpos).nTx_eq
    · exact hm.manager.nTx.trans ((hm.unstopped.resumable hpos).1.idle.receive hm.receive).nTx_eq
  all_goals
    obtain ⟨k, m, hm⟩ := hinLog
    exact (hm.idle hpos).nTx_eq

/-- The node and what it has to receive stay, and no other block comes into the memory. -/
theorem keep (h : p.Recovered log nTx persistEveryNBlock pending) (hnode : p'.node = p.node)
    (hinLog : p'.InLog log nTx persistEveryNBlock pending)
    (hblocks : ∀ block ∈ p'.pipeline, block ∈ p.pipeline) :
    p'.Recovered log nTx persistEveryNBlock pending :=
  ⟨hinLog, hnode ▸ h.hasLedger, fun block hblock => h.fitting block (hblocks block hblock)⟩

/-- The block that is forged, and the snapshots. -/
theorem forge (hinc : Increasing log) (hpos : 0 < nTx)
    (h : p.Recovered log nTx persistEveryNBlock pending) {i : ℕ} {blocks : List L2Block}
    {block : L2Block} {encoder : TxDataEncoder} {snapshots : List (Snapshot lv)}
    (hphase : p.phase = .popping i blocks)
    (hle : i + p.node.manager.nTx ≤ p.node.manager.bufferedTxs.length)
    (hforge : forgeWithTxs p.node.manager.blockGenerateNum (p.node.manager.blockTxs i)
      p.node.manager.txDataEncoder = .ok (block, encoder))
    (hpersist : (p.node.manager.nextBlock encoder).persistEvery p.node.persistEveryNBlock i =
      .ok snapshots) (hfits : p.node.manager.blockGenerateNum < 2 ^ 32) :
    Recovered log nTx persistEveryNBlock { p with
      node := { p.node with manager := p.node.manager.nextBlock encoder }
      phase := .popping (i + p.node.manager.nTx) (blocks ++ [block]) } pending ∧
      ∀ snapshot ∈ snapshots, snapshot.Usable log nTx persistEveryNBlock := by
  have hnTx := h.nTx_eq hpos
  have hinLog := h.inLog
  rw [InLog, hphase] at hinLog
  obtain ⟨k, m, hm⟩ | ⟨rfl, k, received, m, m₁, hm⟩ := hinLog
  · -- there is no complete block
    have hlt : (p.node.manager.bufferedTxs.drop i).length < nTx := (hm.idle hpos).length_lt
    rw [List.length_drop] at hlt
    omega
  obtain ⟨m', hm', hblock, hsame, hrecorded⟩ := hm.forge hinc hpos hforge hpersist
  have hlen : p.node.manager.bufferedTxs.length = p.node.manager.nTx := by
    rw [hm.manager.bufferedTxs, hm.length_eq, hnTx]
  have hdrop : p.node.manager.bufferedTxs.drop (0 + p.node.manager.nTx) = [] := by
    rw [Nat.zero_add, ← hlen, List.drop_length]
  refine ⟨⟨.inl ⟨k + 1, m', hm', ?_, hm.persistEveryNBlock, [], hm.pending,
    fun hne => absurd rfl hne, nofun⟩, h.hasLedger, fun b hb => ?_⟩,
    fun snapshot hmem => ⟨hrecorded snapshot hmem, ?_⟩⟩
  · change ManagerWrapper.Same { p.node.manager.nextBlock encoder with
      bufferedTxs := p.node.manager.bufferedTxs.drop (0 + p.node.manager.nTx) } m'.manager
    rw [hdrop]
    exact hsame
  · have hpipeline : b ∈ p.pipeline ++ [block] := by
      rw [pipeline, hphase, List.append_assoc, List.append_assoc]
      exact hb
    rcases List.mem_append.1 hpipeline with hb | hb
    · exact h.fitting b hb
    · obtain rfl := List.mem_singleton.1 hb
      exact ⟨⟨k + 1, m', hm', hblock⟩, (forgeWithTxs_spec hforge).1.trans_lt hfits⟩
  · obtain ⟨-, -, hwritten⟩ := ManagerWrapper.persistEvery_spec hpersist hmem
    simp only [ManagerWrapper.persist, Exec.bind_eq_ok_iff, Exec.pure_eq_ok_iff] at hwritten
    obtain ⟨_, -, rfl⟩ := hwritten
    exact h.hasLedger

/-- What the steps other than receiving do, if the ids fit. -/
theorem step (hinc : Increasing log) (hpos : 0 < nTx)
    (h : p.Recovered log nTx persistEveryNBlock pending) (hcalls : ¬event.calls)
    (hfits : event = .forge → p.node.manager.blockGenerateNum < 2 ^ 32)
    (hst : p.step disk event = .ok (disk', p')) :
    p'.Recovered log nTx persistEveryNBlock pending ∧
      disk'.l2Block = disk.l2Block ++ (p.inserted event).map L2Block.row ∧
      (∀ block ∈ p.inserted event, block.Fitting log nTx persistEveryNBlock lv) ∧
      ∀ snapshot ∈ disk'.snapshots,
        snapshot ∈ disk.snapshots ∨ snapshot.Usable log nTx persistEveryNBlock := by
  have hinLog := h.inLog
  have hrows : disk.l2Block = disk.l2Block ++ [] := (List.append_nil _).symm
  have hnone : ∀ block ∈ ([] : List L2Block), block.Fitting log nTx persistEveryNBlock lv :=
    List.forall_mem_nil _
  cases step_stepped hst with
  | call _ _ _ | popAllBlocks _ => exact absurd rfl hcalls
  | forge hphase hle hforge hpersist =>
    obtain ⟨h', husable⟩ := h.forge hinc hpos hphase hle hforge hpersist (hfits rfl)
    exact ⟨h', hrows, hnone, fun snapshot hmem =>
      (List.mem_append.1 hmem).imp_right (husable snapshot)⟩
  | @drain i blocks hphase =>
    have hlt := lt_of_drain (map_mk_eq_ok_iff.1 hst).2 hphase
    refine ⟨⟨?_, h.hasLedger, fun block hblock => h.fitting block ?_⟩, hrows, hnone,
      fun _ => .inl⟩
    · rw [InLog, hphase] at hinLog
      obtain hfollows | ⟨rfl, k, received, m, m₁, hm⟩ := hinLog
      · exact hfollows
      · -- there would be a block to forge
        rw [hm.manager.bufferedTxs, hm.length_eq, h.nTx_eq hpos, Nat.zero_add] at hlt
        exact absurd hlt (lt_irrefl _)
    · rw [pipeline, hphase]
      exact hblock
  | done hphase | skip hphase _ _ | new hphase _ | send hphase =>
    rw [InLog, hphase] at hinLog
    refine ⟨h.keep rfl hinLog fun block hblock => ?_, hrows, hnone, fun _ => .inl⟩
    rw [pipeline, hphase]
    simp only [pipeline, Phase.blocks, List.mem_append, List.mem_cons] at hblock ⊢
    tauto
  | receive hsaver hchannel =>
    refine ⟨h.keep rfl hinLog fun block hblock => ?_, hrows, hnone, fun _ => .inl⟩
    rw [pipeline, hsaver, hchannel]
    exact hblock
  | @saveBlock block hsaver =>
    have hinserted : p.inserted .saveBlock = [block] := by rw [inserted, hsaver, Saver.blocks]
    refine ⟨h.keep rfl hinLog fun b hb => ?_, ?_, ?_, fun _ => .inl⟩
    · rw [pipeline_of_received hsaver]
      exact List.mem_cons_of_mem _ hb
    · rw [hinserted]
      rfl
    · rw [hinserted]
      exact List.forall_mem_singleton.2
        (h.fitting block (by rw [pipeline_of_received hsaver]; exact List.mem_cons_self))
  | saveTask hsaver =>
    refine ⟨h.keep rfl hinLog fun block hblock => ?_, hrows, hnone, fun _ => .inl⟩
    rw [pipeline, hsaver]
    exact hblock

/-- A node that follows the loop can go on to pop its blocks: there are none. -/
theorem pop (h : p.Recovered log nTx persistEveryNBlock pending)
    {node : Node lv} {pending' : List Received} {k : ℕ} {m : Node lv}
    (hm : Follows log nTx persistEveryNBlock node pending' k m) (hledger : node.state.HasLedger)
    (hphase : p.phase = .receiving) :
    Recovered log nTx persistEveryNBlock { p with node := node, phase := .popping 0 [] }
      pending' := by
  refine ⟨.inl ⟨k, m, hm⟩, hledger, fun block hblock => h.fitting block ?_⟩
  rw [pipeline, hphase]
  exact hblock

end Recovered

variable {p p' : Process lv} {disk : Disk lv}

/-- A message is only received between two pops, and a pop follows. -/
theorem receiveMsg_eq_ok {received : Received} (hr : p.receiveMsg received = .ok p') :
    ∃ node, p.phase = .receiving ∧ p.node.receive received = .ok node ∧
      p' = { p with node := node, phase := .popping 0 [] } := by
  rw [receiveMsg] at hr
  split at hr
  · next hphase =>
    simp only [Exec.bind_eq_ok_iff, Exec.pure_eq_ok_iff] at hr
    obtain ⟨node, hnode, rfl⟩ := hr
    exact ⟨node, hphase, hnode, rfl⟩
  · cases hr

omit [FluidexCommon] [RustDecimal] [Babyjubjub] [DecimalExt] [UserKey] in
theorem inserted_eq_cons {event : Event} {block : L2Block} {blocks : List L2Block}
    (h : p.inserted event = block :: blocks) : p.saver = .received block ∧ blocks = [] := by
  cases event with
  | saveBlock =>
    cases hsaver : p.saver with
    | received block' =>
      rw [inserted, hsaver] at h
      obtain ⟨rfl, rfl⟩ := List.cons.inj h
      exact ⟨rfl, rfl⟩
    | idle | savedBlock _ =>
      rw [inserted, hsaver] at h
      cases h
  | _ => cases h

namespace Recovered

/-- Between two pops, the process is where the loop is. -/
theorem follows (h : p.Recovered log nTx persistEveryNBlock pending)
    (hphase : p.phase = .receiving) :
    ∃ k m, Follows log nTx persistEveryNBlock p.node pending k m := by
  have hinLog := h.inLog
  rwa [InLog, hphase] at hinLog

/-- The process receives what comes next, perhaps with its tasks in another order. -/
theorem receiveMsg (hpos : 0 < nTx) {received received' : Received} {rest : List Received}
    (h : p.Recovered log nTx persistEveryNBlock (received' :: rest))
    (halike : received.Alike received') (hr : p.receiveMsg received = .ok p') :
    p'.Recovered log nTx persistEveryNBlock rest := by
  obtain ⟨node, hphase, hnode, rfl⟩ := receiveMsg_eq_ok hr
  obtain ⟨k, m, hm⟩ := h.follows hphase
  have hledger : node.state.HasLedger := by
    rcases Node.receive_step hnode with rfl | ⟨op, -, hst⟩
    · exact h.hasLedger
    · exact h.hasLedger.step hst
  rcases hm.receive hpos halike hnode with ⟨k, m, hm⟩ | hcompletes
  · exact h.pop hm hledger hphase
  · refine ⟨.inr ⟨rfl, hcompletes⟩, hledger, fun block hblock => h.fitting block ?_⟩
    rw [pipeline, hphase]
    exact hblock

/-- The process waits in vain, with nothing to put in a block. -/
theorem timeout (h : p.Recovered log nTx persistEveryNBlock pending)
    (hempty : p.node.manager.bufferedTxs = []) (hr : p.receiveMsg .timeout = .ok p') :
    p'.Recovered log nTx persistEveryNBlock pending := by
  obtain ⟨node, hphase, hnode, rfl⟩ := receiveMsg_eq_ok hr
  have hidle : ¬p.node.manager.hasRawTx := not_not.2 hempty
  rw [Node.receive, if_neg hidle] at hnode
  obtain rfl := Exec.pure_eq_ok_iff.1 hnode
  obtain ⟨k, m, hm⟩ := h.follows hphase
  exact h.pop hm h.hasLedger hphase

/-- A process that has just been started. -/
theorem start (hinc : Increasing log) (hpos : 0 < nTx)
    (husable : ∀ snapshot ∈ disk.snapshots, snapshot.Usable log nTx persistEveryNBlock)
    (hrestorable : ∀ snapshot ∈ disk.newest, snapshot.state.Restorable)
    {iteration : Shuffle (ℕ × AccountState)}
    (hr : disk.start nTx persistEveryNBlock iteration = .ok p) :
    p.Recovered log nTx persistEveryNBlock (disk.remaining log) := by
  simp only [Disk.start, Exec.bind_eq_ok_iff, Exec.pure_eq_ok_iff] at hr
  obtain ⟨s, hload, rfl⟩ := hr
  rw [Disk.load] at hload
  rw [Disk.remaining]
  cases hnewest : disk.newest with
  | none =>
    rw [hnewest] at hload
    obtain rfl := Exec.pure_eq_ok_iff.1 hload
    exact ⟨⟨0, _, .zero log nTx persistEveryNBlock, .refl _, rfl, [], rfl,
      fun hne => absurd rfl hne, List.forall_mem_nil _⟩, .new lv, List.forall_mem_nil _⟩
  | some snapshot =>
    rw [hnewest] at hload
    obtain ⟨hrecorded, hledger⟩ := husable snapshot (List.argmax_mem hnewest)
    have hload := Exec.toOption_eq_some_iff.1 (Exec.unwrap_eq_ok_iff.1 hload)
    obtain ⟨hsame, hledger'⟩ := hledger.loadPersist_same (hrestorable snapshot hnewest) hload
    exact ⟨hrecorded.follows hinc hpos hsame, hledger', List.forall_mem_nil _⟩

end Recovered

end Process

omit [FluidexCommon] [Babyjubjub] [DecimalExt] [UserKey] in
/-- The tasks run in another order only if that makes no difference. -/
theorem Received.scheduled_alike {received : Received} {schedule : Option (Shuffle Task)}
    (h : schedule.isSome → ¬received.IsSelfTransfer) :
    (received.scheduled schedule).Alike received := by
  cases received with
  | timeout => exact .timeout
  | msg message _ =>
    cases schedule with
    | none => exact .refl _
    | some schedule => exact .msg (.inr (h rfl))

/-- If a process is started, the state is loaded as it is. -/
def Event.Restores (s : System lv) : Event → Prop
  | .start _ => ∀ snapshot ∈ s.disk.newest, snapshot.state.Restorable
  | _ => True

/-- The tasks of a transfer from an account to itself run in the order in which they ran before.
    The loop waits in vain only with an empty buffer. The ids of the blocks fit. -/
def ServiceEvent.Recovers (s : Service lv) : ServiceEvent → Prop
  | .receive schedule => schedule.isSome → ∀ r ∈ s.pending.head?, ¬r.IsSelfTransfer
  | .timeout => ∀ p ∈ s.system.process, p.node.manager.bufferedTxs = []
  | .system event => event.Fits s.system ∧ event.Restores s.system

namespace Service

/-- The steps, with what they find. -/
inductive Stepped (log : List Received) (nTx persistEveryNBlock : ℕ) :
    Service lv → ServiceEvent → Service lv → Prop
  | receive {disk : Disk lv} {p p' : Process lv} {received : Received} {rest : List Received}
      {table : List L2Block} {schedule : Option (Shuffle Task)} :
      p.receiveMsg (received.scheduled schedule) = .ok p' →
      Stepped log nTx persistEveryNBlock ⟨⟨disk, some p⟩, received :: rest, table⟩
        (.receive schedule) ⟨⟨disk, some p'⟩, rest, table⟩
  | timeout {disk : Disk lv} {p p' : Process lv} {pending : List Received} {table : List L2Block} :
      p.receiveMsg .timeout = .ok p' →
      Stepped log nTx persistEveryNBlock ⟨⟨disk, some p⟩, pending, table⟩ .timeout
        ⟨⟨disk, some p'⟩, pending, table⟩
  | start {disk : Disk lv} {p : Process lv} {pending : List Received} {table : List L2Block}
      {iteration : Shuffle (ℕ × AccountState)} :
      disk.start nTx persistEveryNBlock iteration = .ok p →
      Stepped log nTx persistEveryNBlock ⟨⟨disk, none⟩, pending, table⟩ (.system (.start iteration))
        ⟨⟨disk, some p⟩, disk.remaining log, table⟩
  | crash {disk : Disk lv} {p : Process lv} {pending : List Received} {table : List L2Block} :
      Stepped log nTx persistEveryNBlock ⟨⟨disk, some p⟩, pending, table⟩ (.system .crash)
        ⟨⟨disk, none⟩, pending, table⟩
  | run {disk disk' : Disk lv} {p p' : Process lv} {pending : List Received}
      {table : List L2Block} {event : Event} : ¬event.calls → p.step disk event = .ok (disk', p') →
      Stepped log nTx persistEveryNBlock ⟨⟨disk, some p⟩, pending, table⟩ (.system event)
        ⟨⟨disk', some p'⟩, pending, table ++ p.inserted event⟩

variable {s s' : Service lv}

/-- An event that happens is one of the rules of `Stepped`. -/
theorem step_stepped {event : ServiceEvent}
    (hst : s.step log nTx persistEveryNBlock event = .ok s') :
    Stepped log nTx persistEveryNBlock s event s' := by
  obtain ⟨⟨disk, process⟩, pending, table⟩ := s
  cases event with
  | receive schedule =>
    simp only [step, Exec.bind_eq_ok_iff, Exec.unwrap_eq_ok_iff, Exec.pure_eq_ok_iff] at hst
    obtain ⟨p, rfl, received, hhead, p', hr, rfl⟩ := hst
    rw [← List.cons_head?_tail hhead]
    exact .receive hr
  | timeout =>
    simp only [step, Exec.bind_eq_ok_iff, Exec.unwrap_eq_ok_iff, Exec.pure_eq_ok_iff] at hst
    obtain ⟨p, rfl, p', hr, rfl⟩ := hst
    exact .timeout hr
  | system event =>
    rw [step] at hst
    split at hst
    · cases hst
    · next hcalls =>
      simp only [Exec.bind_eq_ok_iff, Exec.pure_eq_ok_iff] at hst
      obtain ⟨system, hst, rfl⟩ := hst
      cases process with
      | none =>
        cases event with
        | start iteration =>
          simp only [System.step, Exec.bind_eq_ok_iff, Exec.pure_eq_ok_iff] at hst
          obtain ⟨p, hr, rfl⟩ := hst
          rw [show inserted _ (.start iteration) = [] from rfl, List.append_nil]
          exact .start hr
        | _ => cases hst
      | some p =>
        cases event with
        | crash =>
          obtain rfl := Exec.pure_eq_ok_iff.1 hst
          rw [show inserted _ .crash = [] from rfl, List.append_nil]
          exact .crash
        | start iteration => cases hst
        | _ =>
          obtain ⟨⟨disk', p'⟩, hrun, hst⟩ := Exec.bind_eq_ok_iff.1 hst
          obtain rfl := Exec.pure_eq_ok_iff.1 hst
          exact .run hcalls hrun

theorem step_system {event : Event}
    (hst : s.step log nTx persistEveryNBlock (.system event) = .ok s') :
    s.system.step nTx persistEveryNBlock event = .ok s'.system := by
  rw [step] at hst
  split at hst
  · cases hst
  · simp only [Exec.bind_eq_ok_iff, Exec.pure_eq_ok_iff] at hst
    obtain ⟨system, hst, rfl⟩ := hst
    exact hst

/-- The rows are those of blocks of the loop that is not stopped, and the process follows it. -/
structure Recovered (log : List Received) (nTx persistEveryNBlock : ℕ) (s : Service lv) : Prop where
  rows : s.system.disk.l2Block = s.table.map L2Block.row
  fitting : ∀ block ∈ s.table, block.Fitting log nTx persistEveryNBlock lv
  usable : ∀ snapshot ∈ s.system.disk.snapshots, snapshot.Usable log nTx persistEveryNBlock
  process : ∀ p ∈ s.system.process, p.Recovered log nTx persistEveryNBlock s.pending

namespace Recovered

theorem init (log : List Received) (nTx persistEveryNBlock : ℕ) :
    (Service.init lv).Recovered log nTx persistEveryNBlock := ⟨rfl, nofun, nofun, nofun⟩

/-- Every event keeps the process where a run over the log would be. -/
theorem step (hinc : Increasing log) (hpos : 0 < nTx) (h : s.Recovered log nTx persistEveryNBlock)
    {event : ServiceEvent} (hrecovers : event.Recovers s)
    (hst : s.step log nTx persistEveryNBlock event = .ok s') :
    s'.Recovered log nTx persistEveryNBlock := by
  -- What changes neither the disk nor the table only has to keep the process where it should be.
  have hkeep {disk : Disk lv} {process process' : Option (Process lv)}
      {pending pending' : List Received} {table : List L2Block}
      (h : Recovered log nTx persistEveryNBlock ⟨⟨disk, process⟩, pending, table⟩)
      (hp : ∀ p ∈ process', p.Recovered log nTx persistEveryNBlock pending') :
      Recovered log nTx persistEveryNBlock ⟨⟨disk, process'⟩, pending', table⟩ :=
    ⟨h.rows, h.fitting, h.usable, hp⟩
  cases step_stepped hst with
  | @receive _ p _ received _ _ _ hr =>
    refine hkeep h fun _ hp => Option.some.inj hp ▸ (h.process p rfl).receiveMsg hpos ?_ hr
    exact Received.scheduled_alike fun hsome => hrecovers hsome received rfl
  | @timeout _ p _ _ _ hr =>
    exact hkeep h fun _ hp =>
      Option.some.inj hp ▸ (h.process p rfl).timeout (hrecovers p rfl) hr
  -- A process that is started goes on from the newest snapshot, which a run over the log has
  -- left.
  | start hr =>
    exact hkeep h fun _ hp =>
      Option.some.inj hp ▸ .start hinc hpos h.usable hrecovers.2 hr
  | crash => exact hkeep h nofun
  | @run _ disk' p p' _ table event hcalls hrun =>
    obtain ⟨hp', hrows, hinserted, husable⟩ := (h.process p rfl).step hinc hpos hcalls
      (fun hforge => by subst hforge; exact hrecovers.1 p rfl) hrun
    refine ⟨?_, fun block hblock => ?_, fun snapshot hmem => ?_, fun _ hp => ?_⟩
    · change disk'.l2Block = (table ++ p.inserted event).map L2Block.row
      rw [hrows, List.map_append, ← h.rows]
    · exact (List.mem_append.1 hblock).elim (h.fitting block) (hinserted block)
    · exact (husable snapshot hmem).elim (h.usable snapshot) id
    · exact Option.some.inj hp ▸ hp'

/-- A block that is looked up has the root of the row that it finds. -/
theorem isPresentBlock (hpos : 0 < nTx) (h : s.Recovered log nTx persistEveryNBlock)
    {block : L2Block} (hblock : block.Fitting log nTx persistEveryNBlock lv) :
    ∃ isPresent, s.system.disk.isPresentBlock block = .ok isPresent := by
  rw [Disk.isPresentBlock]
  split
  · next row hrow =>
    have hmem := List.mem_of_find?_eq_some hrow
    have hid := List.find?_some hrow
    rw [h.rows, List.mem_map] at hmem
    obtain ⟨block', hblock', rfl⟩ := hmem
    have hfitting := h.fitting block' hblock'
    rw [decide_eq_true_iff, L2Block.row, Nat.mod_eq_of_lt hblock.2,
      Nat.mod_eq_of_lt hfitting.2] at hid
    obtain rfl := hfitting.1.unique hpos hblock.1 hid
    have hroot : block'.row.newRoot = block'.detail.newRoot := rfl
    exact ⟨true, by rw [assert, Exec.assert_of hroot]; rfl⟩
  · exact ⟨false, rfl⟩

/-- The rows of the database are those of the table. -/
theorem blockIds (h : s.Recovered log nTx persistEveryNBlock) :
    s.system.disk.blockIds = s.table.map L2Block.blockId := by
  rw [Disk.blockIds, h.rows, List.map_map]
  exact List.map_congr_left fun block hblock => Nat.mod_eq_of_lt (h.fitting block hblock).2

end Recovered

end Service

/-- However the processor, the saver, the crashes and the restarts are interleaved, and wherever
    the messages are received again: the rows are those of blocks that the loop returns if it is
    not stopped, each where its number says, and a process that waits for a message has the state
    of that loop. No block is found in the database with another root. -/
theorem returned_of_run (hinc : Increasing log) (hpos : 0 < nTx) {s : Service lv}
    (h : Exec.Reachable (Service.step log nTx persistEveryNBlock)
      (fun s event => event.Recovers s) (Service.init lv) s) :
    s.system.disk.l2Block = s.table.map L2Block.row ∧
      (∀ block ∈ s.table, ∃ k, ∃ m : Node lv, Unstopped log nTx persistEveryNBlock k m ∧
        m.blocks[block.blockId]? = some block) ∧
      ∀ p ∈ s.system.process,
        (∀ block ∈ p.pipeline, ∃ isPresent,
          s.system.disk.isPresentBlock block = .ok isPresent) ∧
        (p.phase = .receiving → ∃ k, ∃ m : Node lv, Unstopped log nTx persistEveryNBlock k m ∧
          p.node.state.Same m.state ∧ p.node.manager.blockGenerateNum = m.blocks.length) := by
  have hs : s.Recovered log nTx persistEveryNBlock :=
    h.invariant (.init log nTx persistEveryNBlock) fun _ _ _ _ hs hevent hst =>
      hs.step hinc hpos hevent hst
  refine ⟨hs.rows, fun block hblock => ?_, fun p hp => ⟨fun block hblock => ?_, fun hphase => ?_⟩⟩
  · obtain ⟨k, m, hm, hmem⟩ := (hs.fitting block hblock).1
    exact ⟨k, m, hm, hm.getElem?_blockId hpos hmem⟩
  · exact hs.isPresentBlock hpos ((hs.process p hp).fitting block hblock)
  · obtain ⟨k, m, hm⟩ := (hs.process p hp).follows hphase
    exact ⟨k, m, hm.unstopped, hm.manager.state,
      hm.manager.blockGenerateNum.trans (hm.unstopped.blockIds hpos).1⟩

/-! ## No gap -/

/-- If the process crashes, no block before the newest snapshot is only in memory. -/
def ServiceEvent.LosesNone (s : Service lv) : ServiceEvent → Prop
  | .system event => event.LosesNone s.system
  | .receive _ | .timeout => True

/-- The receiving process generates no block. -/
theorem Process.Recovered.sound_receiveMsg (hpos : 0 < nTx) {p p' : Process lv} {disk : Disk lv}
    {a c : ℕ} {received : Received} (h : p.Recovered log nTx persistEveryNBlock pending)
    (hs : p.Sound disk 0 a c) (hr : p.receiveMsg received = .ok p') : p'.Sound disk 0 a c := by
  obtain ⟨node, hphase, hnode, rfl⟩ := receiveMsg_eq_ok hr
  obtain ⟨k, m, hm⟩ := h.follows hphase
  refine hs.keep rfl rfl ?_ ((hm.idle hpos).receive hnode).blockGenerateNum rfl fun hp =>
    ⟨hp.saver, hp.channel, nofun⟩
  rw [Process.pipeline, Process.pipeline, hphase]
  rfl

namespace Service

/-- The rows are those of the first blocks, in order. -/
structure Gapless (s : Service lv) : Prop where
  system : s.system.Gapless
  blockIds : s.table.map L2Block.blockId = List.range s.table.length

namespace Gapless

variable {s s' : Service lv}

/-- Without a gap, the number of the rows is the id of the next block. -/
theorem length_eq (h : s.Gapless) (hr : s.Recovered log nTx persistEveryNBlock) {c : ℕ}
    (hc : ∀ id, id ∈ s.system.disk.blockIds ↔ id < c) : c = s.table.length := by
  refine eq_of_forall_lt_iff fun id => ?_
  rw [← hc, hr.blockIds, h.blockIds, List.mem_range]

/-- Every event keeps the table without a gap. -/
theorem step (h : s.Gapless) (hr : s.Recovered log nTx persistEveryNBlock) (hpos : 0 < nTx)
    {event : ServiceEvent} (hrecovers : event.Recovers s) (hcrash : event.LosesNone s)
    (hst : s.step log nTx persistEveryNBlock event = .ok s') : s'.Gapless := by
  have hstepped := step_stepped hst
  cases event with
  | receive schedule =>
    cases hstepped with
    | @receive _ p _ received _ _ _ hrun =>
      obtain ⟨a, c, hs⟩ := h.system
      exact ⟨⟨a, c, (hr.process p rfl).sound_receiveMsg hpos hs hrun⟩, h.blockIds⟩
  | timeout =>
    cases hstepped with
    | @timeout _ p _ _ _ hrun =>
      obtain ⟨a, c, hs⟩ := h.system
      exact ⟨⟨a, c, (hr.process p rfl).sound_receiveMsg hpos hs hrun⟩, h.blockIds⟩
  | system event =>
    refine ⟨h.system.step hrecovers.1 hcrash (step_system hst), ?_⟩
    cases hstepped with
    | start _ | crash => exact h.blockIds
    | @run disk _ p _ _ table event _ hrun =>
      obtain ⟨a, c, hs⟩ := h.system
      cases hp : p.inserted event with
      | nil =>
        rw [List.append_nil]
        exact h.blockIds
      | cons block blocks =>
        -- the row of the first block that is not in the database
        obtain ⟨hsaver, rfl⟩ := Process.inserted_eq_cons hp
        have hnew : p.oldBlockCheck = false := hs.new_of_not_silent fun hsilent => by
          cases hsilent.saver.symm.trans hsaver
        have hid := (hs.head (Process.pipeline_of_received hsaver)).1
        have hlen : a = table.length := (hs.new hnew).trans
          (h.length_eq hr fun id => hs.rows id (Nat.zero_le id))
        rw [List.map_append, h.blockIds, List.length_append, List.map_singleton,
          List.length_singleton, List.range_succ, hid, hlen]

end Gapless

end Service

/-- If moreover no block is lost: the rows in the database are those of the first blocks that the
    loop returns if it is not stopped, in order. Once everything has been received and saved they are those of all
    its blocks, and the state is that of this loop. -/
theorem table_of_run (hinc : Increasing log) (hpos : 0 < nTx) {s : Service lv}
    (h : Exec.Reachable (Service.step log nTx persistEveryNBlock)
      (fun s event => event.Recovers s ∧ event.LosesNone s) (Service.init lv) s) :
    s.system.disk.l2Block = s.table.map L2Block.row ∧
      (∃ k, ∃ m : Node lv, Unstopped log nTx persistEveryNBlock k m ∧ s.table <+: m.blocks) ∧
      ∀ p ∈ s.system.process, p.phase = .receiving → p.pipeline = [] → s.pending = [] →
        ∃ m, Exec.run Node.processMsg (Node.new lv nTx none persistEveryNBlock) log = .ok m ∧
          s.table = m.blocks ∧ p.node.state.Same m.state := by
  have hs : s.Recovered log nTx persistEveryNBlock ∧ s.Gapless := by
    refine h.invariant ⟨.init log nTx persistEveryNBlock,
      ⟨0, fun id => ⟨fun hid => (by cases hid), nofun⟩, le_rfl, Nat.zero_le _⟩, rfl⟩ ?_
    exact fun _ _ _ _ hs hevent hst =>
      ⟨hs.1.step hinc hpos hevent.1 hst, hs.2.step hs.1 hpos hevent.1 hevent.2 hst⟩
  obtain ⟨hr, hgapless⟩ := hs
  have hprefix {k : ℕ} {m : Node lv} (hm : Unstopped log nTx persistEveryNBlock k m)
      (hmem : ∀ block ∈ s.table, block ∈ m.blocks) : s.table <+: m.blocks := by
    refine List.prefix_iff_getElem?.2 fun i hi => ?_
    have hid : (s.table.map L2Block.blockId)[i]? = some i := by
      rw [hgapless.blockIds, List.getElem?_range hi]
    rw [List.getElem?_map, List.getElem?_eq_getElem hi, Option.map_some, Option.some.injEq] at hid
    conv_lhs => rw [← hid]
    exact hm.getElem?_blockId hpos (hmem _ (List.getElem_mem hi))
  obtain ⟨k₀, m₀, hm₀, hmem⟩ := Returned.exists_forall hpos fun block hblock =>
    (hr.fitting block hblock).1
  refine ⟨hr.rows, ⟨k₀, m₀, hm₀, hprefix hm₀ hmem⟩, fun p hp hphase hpipeline hpending => ?_⟩
  -- it has received everything
  obtain ⟨k, m, hm⟩ := (hr.process p hp).follows hphase
  obtain ⟨again, hagain, -, -⟩ := hm.pending
  rw [hpending, eq_comm, List.append_eq_nil_iff, List.drop_eq_nil_iff] at hagain
  have hrun := hm.unstopped.run
  rw [List.take_of_length_le hagain.2] at hrun
  have hall := hm₀.blocks_prefix hpos hm.unstopped (hm₀.le.trans hagain.2)
  have htable := hprefix hm.unstopped fun block hblock => hall.subset (hmem block hblock)
  refine ⟨m, hrun, htable.eq_of_length_le ?_, hm.manager.state⟩
  -- and the blocks that it has generated have been saved
  have hsystem := hgapless.system
  rw [System.Gapless, show s.system.process = some p from hp] at hsystem
  obtain ⟨a, c, hsound⟩ := hsystem
  have hnum := hsound.blockGenerateNum
  have hlen := hgapless.length_eq hr fun id => hsound.rows id (Nat.zero_le id)
  rw [hpipeline, hm.manager.blockGenerateNum, (hm.unstopped.blockIds hpos).1] at hnum
  have hle := hsound.le_rows
  rw [← hlen, ← hnum]
  exact hle

instance (received : Received) : Decidable received.IsSelfTransfer :=
  match received with
  | .msg (.transfer message) _ =>
    inferInstanceAs (Decidable (message.message.userFrom = message.message.userTo))
  | .msg (.deposit _) _ | .msg (.order _) _ | .msg (.trade _) _ | .msg (.user _) _
  | .msg (.withdraw _) _ | .timeout => .isFalse id

instance (s : System lv) (event : Event) : Decidable (event.Restores s) :=
  match event with
  | .start _ => inferInstanceAs (Decidable (∀ snapshot ∈ s.disk.newest, snapshot.state.Restorable))
  | .call _ | .popAllBlocks | .forge | .drain | .check | .send | .receive | .saveBlock | .saveTask
  | .crash => .isTrue trivial

instance (s : System lv) (event : Event) : Decidable (event.Fits s) :=
  match event with
  | .forge =>
    inferInstanceAs (Decidable (∀ p ∈ s.process, p.node.manager.blockGenerateNum < 2 ^ 32))
  | .call _ | .popAllBlocks | .drain | .check | .send | .receive | .saveBlock | .saveTask
  | .crash | .start _ => .isTrue trivial

instance (s : Service lv) (event : ServiceEvent) : Decidable (event.Recovers s) :=
  match event with
  | .receive schedule => inferInstanceAs
      (Decidable (schedule.isSome → ∀ r ∈ s.pending.head?, ¬r.IsSelfTransfer))
  | .timeout =>
    inferInstanceAs (Decidable (∀ p ∈ s.system.process, p.node.manager.bufferedTxs = []))
  | .system event => inferInstanceAs (Decidable (event.Fits s.system ∧ event.Restores s.system))

instance (s : Service lv) (event : ServiceEvent) : Decidable (event.LosesNone s) :=
  match event with
  | .system .crash => inferInstanceAs (Decidable (∀ p ∈ s.system.process, ∀ block ∈ p.pipeline,
      block.blockId < s.system.disk.blockOffset → block.blockId ∈ s.system.disk.blockIds))
  | .receive _ | .timeout | .system (.call _) | .system .popAllBlocks | .system .forge
  | .system .drain | .system .check | .system .send | .system .receive | .system .saveBlock
  | .system .saveTask | .system (.start _) => .isTrue trivial

end Recovered

end Recovering

section Example

attribute [local instance] FluidexCommon.sample RustDecimal.sample Babyjubjub.sample
  DecimalExt.sample UserKey.sample

/-- Two users, with a deposit of the first one in between. -/
def usersLog : List Received := [newUser 0 1, depositFive 2, newUser 1 3, .timeout]

theorem usersLog_increasing : Increasing usersLog := ⟨by decide, by decide⟩

/-- A message is received that completes no block. -/
def bufferEvents (schedule : Option (Shuffle Task)) : List ServiceEvent :=
  [.receive schedule, .system .drain, .system .check]

/-- A message or a timeout is received that completes a block. -/
def blockEvents : List ServiceEvent := [.receive none, .system .forge, .system .drain]

/-- The block is sent and saved, and the loop waits again. -/
def savedEvents : List ServiceEvent := [.system .check, .system .send, .system .check,
  .system .receive, .system .saveBlock, .system .saveTask]

/-- The process crashes after the first block, and is started again. -/
def crashEvents : List ServiceEvent :=
  [.system (.start .id)] ++ bufferEvents none ++ blockEvents ++ savedEvents ++
    [.system .crash, .system (.start .reverse)]

/-- Without a snapshot, the first block is generated again, and found. -/
theorem returned_of_run_usersLog : ∃ s k, ∃ m : Node Levels.small, ∃ p block,
    Exec.run (Service.step usersLog 2 9) (Service.init Levels.small)
      (crashEvents ++ bufferEvents (some .reverse) ++ blockEvents) = .ok s ∧
    s.system.process = some p ∧ p.pipeline.head? = some block ∧
    s.system.disk.isPresentBlock block = .ok true ∧
    Unstopped usersLog 2 9 k m ∧ m.blocks[0]? = s.table[0]? := by
  obtain ⟨⟨s, p, block, row⟩, hs⟩ := Exec.exists_eq_ok (do
    let s ← Exec.run (Exec.guarded (Service.step usersLog 2 9) (.explicit "other")
      fun s event => event.Recovers s) (Service.init Levels.small)
      (crashEvents ++ bufferEvents (some .reverse) ++ blockEvents)
    let p ← unwrap s.system.process
    let block : L2Block ← unwrap p.pipeline.head?
    let row : L2Block ← unwrap s.table[0]?
    assert (row.blockId = 0 ∧ block.blockId % 2 ^ 32 ∈ s.system.disk.blockIds) "row"
    pure (s, p, block, row)) (by decide +kernel)
  simp only [Exec.bind_eq_ok_iff, Exec.unwrap_eq_ok_iff, Exec.assert_eq_ok_iff,
    Exec.pure_eq_ok_iff, Prod.mk.injEq] at hs
  obtain ⟨s, hs, p, hp, block, hblock, row, hrow, _, ⟨hid, hmem⟩, rfl, rfl, rfl, rfl⟩ := hs
  obtain ⟨hreach, hrun⟩ := Exec.Reachable.init.of_guarded hs
  obtain ⟨-, htable, hprocess⟩ := returned_of_run usersLog_increasing (by decide) hreach
  obtain ⟨k, m, hm, hget⟩ := htable row (List.mem_of_getElem? hrow)
  obtain ⟨isPresent, hpresent⟩ := (hprocess p hp).1 block (List.mem_of_head? hblock)
  obtain rfl := (Disk.isPresentBlock_spec hpresent).2 hmem
  rw [hid] at hget
  exact ⟨s, k, m, p, block, hrun, hp, hblock, hpresent, hm, hget.trans hrow.symm⟩

/-- The process, if it has received and saved everything. -/
def Service.finished {lv : Levels} (s : Service lv) : Except Panic (Process lv) := do
  let p ← unwrap s.system.process
  match p.phase with
  | .receiving => do
    assert (p.pipeline.length = 0 ∧ s.pending.length = 0) "left"
    pure p
  | _ => disabled

/-- All has been received, popped and saved. -/
theorem Service.finished_eq_ok {lv : Levels} {s : Service lv} {p : Process lv}
    (h : s.finished = .ok p) : p ∈ s.system.process ∧ p.phase = .receiving ∧ p.pipeline = [] ∧
      s.pending = [] := by
  simp only [finished, Exec.bind_eq_ok_iff, Exec.unwrap_eq_ok_iff] at h
  obtain ⟨p', hp, h⟩ := h
  split at h
  · next hphase =>
    simp only [Exec.bind_eq_ok_iff, Exec.assert_eq_ok_iff, Exec.pure_eq_ok_iff] at h
    obtain ⟨_, ⟨hpipeline, hpending⟩, rfl⟩ := h
    exact ⟨hp, hphase, List.length_eq_zero_iff.1 hpipeline, List.length_eq_zero_iff.1 hpending⟩
  · cases h

/-- From the snapshot of the first block, only the second one is generated. -/
theorem table_of_run_usersLog : ∃ s m,
    Exec.run (Service.step usersLog 2 1) (Service.init Levels.small)
      (crashEvents ++ bufferEvents (some .reverse) ++ blockEvents ++ savedEvents) = .ok s ∧
    Exec.run Node.processMsg (Node.new Levels.small 2 none 1) usersLog = .ok m ∧
    s.system.disk.l2Block = m.blocks.map L2Block.row ∧ m.blocks.length = 2 := by
  obtain ⟨⟨s, p⟩, hs⟩ := Exec.exists_eq_ok (do
    let s ← Exec.run (Exec.guarded (Service.step usersLog 2 1) (.explicit "lost")
      fun s event => event.Recovers s ∧ event.LosesNone s) (Service.init Levels.small)
      (crashEvents ++ bufferEvents (some .reverse) ++ blockEvents ++ savedEvents)
    let p ← s.finished
    assert (s.table.length = 2) "two blocks"
    pure (s, p)) (by decide +kernel)
  simp only [Exec.bind_eq_ok_iff, Exec.assert_eq_ok_iff, Exec.pure_eq_ok_iff,
    Prod.mk.injEq] at hs
  obtain ⟨s, hs, p, hfinished, _, hlen, rfl, rfl⟩ := hs
  obtain ⟨hreach, hrun⟩ := Exec.Reachable.init.of_guarded hs
  obtain ⟨hp, hphase, hpipeline, hpending⟩ := Service.finished_eq_ok hfinished
  obtain ⟨hrows, -, hall⟩ := table_of_run usersLog_increasing (by decide) hreach
  obtain ⟨m, hm, htable, -⟩ := hall p hp hphase hpipeline hpending
  exact ⟨s, m, hrun, hm, htable ▸ hrows, htable ▸ hlen⟩

end Example

end Rollup
