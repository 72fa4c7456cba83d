import Rollup.Resuming

/-!
# Following the loop

A loop that has been started again after a crash follows the one that is not stopped
(`Unstopped`): it has its manager after some of the log, and has still to receive the rest, after
messages that have nothing left to do (`Follows`). When it receives what comes next it does so
again, or has the block that the other one has there (`Follows.receive`), and forges this block
(`Completes.forge`). A loop that is started over a snapshot follows it, if the state is loaded as
it is (`GlobalState.Restorable`, `Snapshot.Recorded.follows`).
-/

namespace Rollup

section Following

variable [FluidexCommon] {lv : Levels}

/-! ## The state of a snapshot -/

section Restorable

variable {s s' : GlobalState lv} {L : Ledger lv}

/-- A state that is loaded as it is, but for the order in which its maps are stored: the leaf of
    every account is stored, no two of them have the same hash, and the positions of the orders are
    those that are recomputed. -/
structure GlobalState.Restorable (s : GlobalState lv) : Prop where
  stored : ∀ a ∈ s.accountStates, a ∈ s.accountTree.data
  different : ∀ a b acc acc', s.accountStates.lookup a = some acc →
    s.accountStates.lookup b = some acc' → acc.hash = acc'.hash → a = b
  orderIdToPos : Maps.Same (GlobalState.orderIdsToPos s.orderStates) s.orderIdToPos

instance (s : GlobalState lv) : Decidable s.Restorable :=
  decidable_of_iff ((∀ a ∈ s.accountStates.keys, a ∈ s.accountTree.data) ∧
      (∀ a ∈ s.accountStates.keys, ∀ b ∈ s.accountStates.keys,
        (s.getAccount a).hash = (s.getAccount b).hash → a = b) ∧
      Maps.Same (GlobalState.orderIdsToPos s.orderStates) s.orderIdToPos) <| by
    have hmem {a : ℕ} {acc : AccountState} (hacc : s.accountStates.lookup a = some acc) :
        a ∈ s.accountStates.keys ∧ s.getAccount a = acc := by
      refine ⟨AList.mem_keys.1 (AList.lookup_isSome.1 (by rw [hacc]; rfl)), ?_⟩
      rw [GlobalState.getAccount, hacc, Option.getD_some]
    constructor
    · rintro ⟨hstored, hdifferent, horders⟩
      refine ⟨fun a ha => hstored a (AList.mem_keys.1 ha), fun a b acc acc' hacc hacc' hhash => ?_,
        horders⟩
      refine hdifferent a (hmem hacc).1 b (hmem hacc').1 ?_
      rw [(hmem hacc).2, (hmem hacc').2, hhash]
    · rintro ⟨hstored, hdifferent, horders⟩
      refine ⟨fun a ha => hstored a (AList.mem_keys.2 ha), fun a ha b hb hhash => ?_, horders⟩
      obtain ⟨acc, hacc⟩ := Option.isSome_iff_exists.1 (AList.lookup_isSome.2 (AList.mem_keys.2 ha))
      obtain ⟨acc', hacc'⟩ :=
        Option.isSome_iff_exists.1 (AList.lookup_isSome.2 (AList.mem_keys.2 hb))
      rw [(hmem hacc).2, (hmem hacc').2] at hhash
      exact hdifferent a b acc acc' hacc hacc' hhash

omit [FluidexCommon] in
/-- Two states with the same entries and the same account tree. -/
theorem Holds.same (h : Holds s L) (h' : Holds s' L) (htree : s'.accountTree = s.accountTree) :
    s'.Same s where
  accountTree := htree
  accountStates a := by rw [h'.accountStates, h.accountStates]
  balanceTrees a := by rw [h'.balanceTrees, h.balanceTrees]
  orderTrees a := by rw [h'.orderTrees, h.orderTrees]
  orderStates := .of_lookup_eq fun a => by rw [h'.orderStates, h.orderStates]
  orderIdToPos k := by
    obtain ⟨a, orderId⟩ := k
    rw [h'.orderIdToPos, h.orderIdToPos]
  nextOrderPositions a := by rw [h'.nextOrderPositions, h.nextOrderPositions]

omit [FluidexCommon] in
theorem Holds.reindex (h : Holds s L) (hs : Maps.Same (GlobalState.orderIdsToPos s.orderStates)
    s.orderIdToPos) {a : ℕ} {e : Entry lv} (he : L a = some e) : e.reindex = e := by
  have hpos : (fun orderId => (Maps.inverse e.orders Order.orderId).lookup orderId) =
      e.orderPos := by
    funext orderId
    have hk := hs (a, orderId)
    rwa [lookup_orderIdsToPos, h.orderStates, h.orderIdToPos, he] at hk
  rw [Entry.reindex, hpos]

/-- A restorable state is loaded as it is. -/
theorem GlobalState.HasLedger.loadPersist_same (h : s.HasLedger) (hs : s.Restorable)
    {iteration : Shuffle (ℕ × AccountState)} {s₀ : GlobalState lv}
    (hload : s₀.loadPersist (s.persist iteration .empty) = .ok s') :
    s'.Same s ∧ s'.HasLedger := by
  obtain ⟨L, h, hL⟩ := h
  obtain ⟨s₁, hload₁, htree, h', -, hfind⟩ := loadPersist_spec h hL iteration s₀
  obtain rfl := Except.ok.inj (hload.symm.trans hload₁)
  have hall := hfind.2 (h.findable_iff.2 ⟨hs.stored, hs.different⟩)
  have hrestore : L.restore s'.accountStates = L := by
    funext a
    rw [Ledger.restore]
    cases he : L a with
    | none => rw [Option.map_none, ite_self]
    | some e => rw [if_pos (hall a e he), Option.map_some, h.reindex hs.orderIdToPos he]
  rw [hrestore] at h'
  exact ⟨h.same h' htree, L, ⟨h', htree ▸ h.committed⟩, hL⟩

end Restorable

variable [RustDecimal] [Babyjubjub] [DecimalExt] [UserKey]

/-! ## The loop that is not stopped -/

section Unstopped

variable {log : List Received} {nTx persistEveryNBlock k k' : ℕ} {m m' : Node lv}

/-- The node of a loop that has received the first `k` of the log without being stopped. -/
structure Unstopped (log : List Received) (nTx persistEveryNBlock k : ℕ) (m : Node lv) : Prop where
  le : k ≤ log.length
  run : Exec.run Node.processMsg (Node.new lv nTx none persistEveryNBlock) (log.take k) = .ok m

/-- The blocks that are returned in a run are numbered in order. -/
theorem Node.run_blocks {n n' : Node lv} {rs : List Received} (h : n.Idle nTx)
    (hr : Exec.run processMsg n rs = .ok n') : ∃ blocks, n'.blocks = n.blocks ++ blocks ∧
      n'.manager.blockGenerateNum = n.manager.blockGenerateNum + blocks.length ∧
      blocks.map L2Block.blockId = List.range' n.manager.blockGenerateNum blocks.length := by
  have hstart : Matches n.state.root 0 n { n with emitted := [] } := ⟨.refl _, rfl, rfl⟩
  obtain ⟨_, -, -, blocks, hblocks, hnum, hids, -⟩ := run_ends h hstart hr
  exact ⟨blocks, hblocks, hnum, hids⟩

namespace Unstopped

theorem zero (log : List Received) (nTx persistEveryNBlock : ℕ) :
    Unstopped log nTx persistEveryNBlock 0 (Node.new lv nTx none persistEveryNBlock) :=
  ⟨Nat.zero_le _, rfl⟩

theorem succ (h : Unstopped log nTx persistEveryNBlock k m) {received : Received}
    (hk : log[k]? = some received) (hst : m.processMsg received = .ok m') :
    Unstopped log nTx persistEveryNBlock (k + 1) m' where
  le := (List.getElem?_eq_some_iff.1 hk).1
  run := by
    rw [List.take_add_one, hk]
    exact Exec.run_append.2 ⟨m, h.run, Exec.run_cons.2 ⟨m', hst, rfl⟩⟩

theorem resumable (hpos : 0 < nTx) (h : Unstopped log nTx persistEveryNBlock k m) :
    m.Resumable nTx (log.take k) ∧ m.persistEveryNBlock = persistEveryNBlock :=
  Node.run_resumable (.new hpos persistEveryNBlock) h.run

/-- Its blocks are numbered in order. -/
theorem blockIds (hpos : 0 < nTx) (h : Unstopped log nTx persistEveryNBlock k m) :
    m.manager.blockGenerateNum = m.blocks.length ∧
      m.blocks.map L2Block.blockId = List.range m.blocks.length := by
  obtain ⟨blocks, hblocks, hnum, hids⟩ :=
    Node.run_blocks (n := Node.new lv nTx none persistEveryNBlock) ⟨rfl, hpos⟩ h.run
  obtain rfl : m.blocks = blocks := hblocks
  exact ⟨hnum.trans (Nat.zero_add _), hids.trans List.range_eq_range'.symm⟩

/-- The blocks that it has returned stay. -/
theorem blocks_prefix (hpos : 0 < nTx) (h : Unstopped log nTx persistEveryNBlock k m)
    (h' : Unstopped log nTx persistEveryNBlock k' m') (hle : k ≤ k') :
    m.blocks <+: m'.blocks := by
  have hrun := h'.run
  rw [← Nat.add_sub_cancel' hle, List.take_add] at hrun
  obtain ⟨m₁, hfirst, hrest⟩ := Exec.run_append.1 hrun
  obtain rfl := Except.ok.inj (h.run.symm.trans hfirst)
  obtain ⟨blocks, hblocks, -, -⟩ := Node.run_blocks (h.resumable hpos).1.idle hrest
  exact ⟨blocks, hblocks.symm⟩

/-- A block is where its number says. -/
theorem getElem?_blockId (hpos : 0 < nTx) (h : Unstopped log nTx persistEveryNBlock k m)
    {block : L2Block} (hblock : block ∈ m.blocks) : m.blocks[block.blockId]? = some block := by
  obtain ⟨i, hi, rfl⟩ := List.mem_iff_getElem.1 hblock
  have hid : (m.blocks.map L2Block.blockId)[i]? = some i := by
    rw [(h.blockIds hpos).2, List.getElem?_range hi]
  rw [List.getElem?_map, List.getElem?_eq_getElem hi, Option.map_some, Option.some.injEq] at hid
  rw [hid, List.getElem?_eq_getElem hi]

end Unstopped

/-- The loop returns the block if it is not stopped. -/
def Returned (log : List Received) (nTx persistEveryNBlock : ℕ) (lv : Levels) (block : L2Block) :
    Prop :=
  ∃ k, ∃ m : Node lv, Unstopped log nTx persistEveryNBlock k m ∧ block ∈ m.blocks

/-- There is one block of each number. -/
theorem Returned.unique (hpos : 0 < nTx) {block block' : L2Block}
    (h : Returned log nTx persistEveryNBlock lv block)
    (h' : Returned log nTx persistEveryNBlock lv block') (hid : block.blockId = block'.blockId) :
    block = block' := by
  obtain ⟨k, m, hm, hblock⟩ := h
  obtain ⟨k', m', hm', hblock'⟩ := h'
  rcases Nat.le_total k k' with hle | hle
  · have hmem := (hm.blocks_prefix hpos hm' hle).subset hblock
    have hget := hm'.getElem?_blockId hpos hmem
    rw [hid, hm'.getElem?_blockId hpos hblock'] at hget
    exact (Option.some.inj hget).symm
  · have hmem := (hm'.blocks_prefix hpos hm hle).subset hblock'
    have hget := hm.getElem?_blockId hpos hmem
    rw [← hid, hm.getElem?_blockId hpos hblock] at hget
    exact Option.some.inj hget

/-- It returns all of some blocks if it returns each of them. -/
theorem Returned.exists_forall (hpos : 0 < nTx) {blocks : List L2Block}
    (h : ∀ block ∈ blocks, Returned log nTx persistEveryNBlock lv block) :
    ∃ k, ∃ m : Node lv, Unstopped log nTx persistEveryNBlock k m ∧
      ∀ block ∈ blocks, block ∈ m.blocks := by
  induction blocks with
  | nil => exact ⟨0, _, .zero log nTx persistEveryNBlock, nofun⟩
  | cons block blocks ih =>
    obtain ⟨⟨k, m, hm, hblock⟩, hblocks⟩ := List.forall_mem_cons.1 h
    obtain ⟨k', m', hm', hmem⟩ := ih hblocks
    rcases Nat.le_total k k' with hle | hle
    · exact ⟨k', m', hm', List.forall_mem_cons.2
        ⟨(hm.blocks_prefix hpos hm' hle).subset hblock, hmem⟩⟩
    · exact ⟨k, m, hm, List.forall_mem_cons.2
        ⟨hblock, fun b hb => (hm'.blocks_prefix hpos hm hle).subset (hmem b hb)⟩⟩

end Unstopped

/-! ## Following it -/

section Follows

variable {log pending : List Received} {nTx persistEveryNBlock k : ℕ} {n n' m : Node lv}

/-- What receiving something changes of a node without a complete block. -/
structure Node.Receives (nTx : ℕ) (n n' : Node lv) : Prop where
  nTx_eq : n'.manager.nTx = nTx
  length_le : n'.manager.bufferedTxs.length ≤ nTx
  blockGenerateNum : n'.manager.blockGenerateNum = n.manager.blockGenerateNum
  persistEveryNBlock : n'.persistEveryNBlock = n.persistEveryNBlock
  blocks : n'.blocks = n.blocks
  snapshots : n'.snapshots = n.snapshots

theorem Node.Idle.receive (h : n.Idle nTx) {received : Received}
    (hr : n.receive received = .ok n') : Node.Receives nTx n n' := by
  have hlt : n.manager.bufferedTxs.length < n.manager.nTx := h.nTx_eq ▸ h.length_lt
  cases received with
  | msg message schedule =>
    obtain ⟨_, -, raw, s, _, -, -, rfl, -⟩ :=
      (Processor.default.handleMsg_related (.refl n.state) message (.inl rfl)).exists_ok hr
    cases raw with
    | none => exact ⟨h.nTx_eq, h.length_lt.le, rfl, rfl, rfl, rfl⟩
    | some raw =>
      exact ⟨h.nTx_eq, List.length_append.trans_le h.length_lt, rfl, rfl, rfl, rfl⟩
  | timeout =>
    by_cases hne : n.manager.bufferedTxs = []
    · have hidle : ¬n.manager.hasRawTx := not_not.2 hne
      rw [Node.receive, if_neg hidle, Exec.pure_eq_ok_iff] at hr
      exact hr ▸ ⟨h.nTx_eq, h.length_lt.le, rfl, rfl, rfl, rfl⟩
    · have hraw : n.manager.hasRawTx := hne
      rw [Node.receive, if_pos hraw, Node.step_flush (Nat.zero_lt_of_lt hlt),
        Except.ok.injEq] at hr
      exact hr ▸ ⟨h.nTx_eq, ((Node.length_fill hlt hne).trans h.nTx_eq).le, rfl, rfl, rfl, rfl⟩

/-- The node has the manager of the loop that is not stopped, after the first `k` of the log, and
    has still to receive what comes then. It may first receive once more some of what came before,
    which has nothing left to do. -/
structure Follows (log : List Received) (nTx persistEveryNBlock : ℕ) (n : Node lv)
    (pending : List Received) (k : ℕ) (m : Node lv) : Prop where
  unstopped : Unstopped log nTx persistEveryNBlock k m
  manager : n.manager.Same m.manager
  persistEveryNBlock : n.persistEveryNBlock = persistEveryNBlock
  pending : ∃ again, pending = again ++ log.drop k ∧
    (again ≠ [] → m.manager.bufferedTxs = []) ∧
    ∀ received ∈ again, received = .timeout ∨ received.Settled m.state

/-- The node has received the message or the timeout after the first `k`, and has now a complete
    block. -/
structure Completes (log : List Received) (nTx persistEveryNBlock : ℕ) (n : Node lv)
    (pending : List Received) (k : ℕ) (received : Received) (m m₁ : Node lv) : Prop where
  unstopped : Unstopped log nTx persistEveryNBlock k m
  next : log[k]? = some received
  receive : m.receive received = .ok m₁
  length_eq : m₁.manager.bufferedTxs.length = nTx
  manager : n.manager.Same m₁.manager
  persistEveryNBlock : n.persistEveryNBlock = persistEveryNBlock
  pending : pending = log.drop (k + 1)

theorem Follows.idle (hpos : 0 < nTx) {pending : List Received}
    (h : Follows log nTx persistEveryNBlock n pending k m) : n.Idle nTx := by
  have hm := (h.unstopped.resumable hpos).1.idle
  exact ⟨h.manager.nTx.trans hm.nTx_eq, h.manager.bufferedTxs ▸ hm.length_lt⟩

/-- What has nothing left to do changes nothing. -/
theorem Node.receive_again (hempty : m.manager.bufferedTxs = []) {received : Received}
    (h : received = .timeout ∨ received.Settled m.state) :
    ∃ m', m.receive received = .ok m' ∧ m'.manager.Same m.manager ∧
      m'.persistEveryNBlock = m.persistEveryNBlock := by
  rcases h with rfl | h
  · have hidle : ¬m.manager.hasRawTx := not_not.2 hempty
    exact ⟨m, if_neg hidle, .refl _, rfl⟩
  · cases received with
    | timeout => exact h.elim
    | msg message schedule =>
      cases message with
      | deposit _ | trade _ | transfer _ | user _ | withdraw _ => exact h.elim
      | order message =>
        obtain ⟨s, hs, hr⟩ : ∃ s, s.Same m.state ∧
          Processor.default.handleOrderMsg m message = .ok (m.advance none s) :=
          OrderMessage.Settled.handle h
        exact ⟨_, hr, ⟨hs, rfl, rfl, rfl, rfl⟩, rfl⟩

/-- The node receives what comes next: it is then where the loop that is not stopped is after one
    more, unless it has a complete block. -/
theorem Follows.receive (hpos : 0 < nTx) {received received' : Received} {rest : List Received}
    (h : Follows log nTx persistEveryNBlock n (received' :: rest) k m)
    (halike : received.Alike received') (hr : n.receive received = .ok n') :
    (∃ k m, Follows log nTx persistEveryNBlock n' rest k m) ∨
    ∃ k received m m₁, Completes log nTx persistEveryNBlock n' rest k received m m₁ := by
  obtain ⟨hm, hpersist⟩ := h.unstopped.resumable hpos
  obtain ⟨m₁, hm₁, hk⟩ := (Node.receive_keeps h.manager
    (h.persistEveryNBlock.trans hpersist.symm) halike).exists_ok hr
  have hreceives := hm.idle.receive hm₁
  have hpersist' : n'.persistEveryNBlock = persistEveryNBlock :=
    hk.persistEveryNBlock.trans (hreceives.persistEveryNBlock.trans hpersist)
  obtain ⟨again, hpending, hempty, hsettled⟩ := h.pending
  cases again with
  | cons first again =>
    -- it has nothing left to do
    obtain ⟨rfl, rfl⟩ := List.cons.inj hpending
    obtain ⟨m₂, hm₂, hsame, -⟩ := Node.receive_again (hempty (List.cons_ne_nil _ _))
      (hsettled received' List.mem_cons_self)
    obtain rfl := Except.ok.inj (hm₁.symm.trans hm₂)
    exact .inl ⟨k, m, h.unstopped, hk.manager.trans hsame, hpersist', again, rfl,
      fun _ => hempty (List.cons_ne_nil _ _), fun r hr => hsettled r (List.mem_cons_of_mem _ hr)⟩
  | nil =>
    rw [List.nil_append] at hpending
    have hnext : log[k]? = some received' := by
      rw [← List.head?_drop, ← hpending, List.head?_cons]
    have hrest : rest = log.drop (k + 1) := by
      rw [← List.tail_drop, ← hpending, List.tail_cons]
    rcases hreceives.length_le.lt_or_eq with hlt | heq
    · have hst : m.processMsg received' = .ok m₁ := by
        rw [Node.processMsg, hm₁]
        exact Node.step_pop_of_lt (hlt.trans_eq hreceives.nTx_eq.symm)
      exact .inl ⟨k + 1, m₁, h.unstopped.succ hnext hst, hk.manager, hpersist', [], hrest,
        fun hne => absurd rfl hne, nofun⟩
    · exact .inr ⟨k, received', m, m₁, h.unstopped, hnext, hm₁, heq, hk.manager, hpersist', hrest⟩

end Follows

/-! ## Snapshots -/

section Snapshots

variable {log pending : List Received} {nTx persistEveryNBlock k : ℕ} {n m : Node lv}

/-- What comes after the message with the offset. -/
def after (k : ℤ) (rs : List Received) : List Received :=
  (rs.dropWhile fun received => received.offset ≠ some k).tail

/-- The snapshots only differ by the order in which the maps of their states are stored. -/
structure Snapshot.Same (snapshot snapshot' : Snapshot lv) : Prop where
  state : snapshot.state.Same snapshot'.state
  blockOffset : snapshot.blockOffset = snapshot'.blockOffset
  kafkaOffset : snapshot.kafkaOffset = snapshot'.kafkaOffset

omit [RustDecimal] [Babyjubjub] [DecimalExt] [UserKey] [FluidexCommon] in
/-- From the same managers, the same snapshots are written. -/
theorem ManagerWrapper.Same.persistEvery_same {m m' : ManagerWrapper lv} (h : m.Same m')
    (persistEveryNBlock i : ℕ) : Exec.Related (List.Forall₂ Snapshot.Same)
      (m.persistEvery persistEveryNBlock i) (m'.persistEvery persistEveryNBlock i) := by
  refine .assert_bind Iff.rfl fun _ => .ite (by rw [h.blockGenerateNum]) (fun _ => ?_)
    fun _ => .pure_pure .nil
  refine .map (R := Snapshot.Same) ?_ fun _ _ hs => .cons hs .nil
  rw [persist, persist, blockTxs, blockTxs, h.bufferedTxs, h.nTx]
  exact .bind_self fun _ _ => .pure_pure ⟨h.state, h.blockGenerateNum, rfl⟩

/-- The snapshot is one that the loop takes if it is not stopped. -/
def Snapshot.Recorded (log : List Received) (nTx persistEveryNBlock : ℕ)
    (snapshot : Snapshot lv) : Prop :=
  ∃ k m taken, Unstopped log nTx persistEveryNBlock k m ∧ m.TookAfter (log.take k) taken ∧
    snapshot.Same taken

omit [FluidexCommon] [DecimalExt] [Babyjubjub] [UserKey] in
theorem Increasing.take (h : Increasing log) (k : ℕ) : Increasing (log.take k) where
  isSome received hr :=
    h.isSome received (((List.take_sublist k log).filter _).subset hr)
  pairwise := h.pairwise.sublist ((List.take_sublist k log).filter _)

omit [FluidexCommon] [DecimalExt] [Babyjubjub] [UserKey] in
/-- The offsets that come before are others. -/
theorem after_eq (h : Increasing log) {before rest : List Received} {received : Received} {k : ℤ}
    (heq : log = before ++ received :: rest) (hk : received.offset = some k) :
    after k log = rest := by
  have hbefore : ∀ r ∈ before, decide (r.offset ≠ some k) = true := by
    intro r hr
    refine decide_eq_true fun hrk => ?_
    have hpairwise := h.pairwise
    rw [heq, messages, List.filter_append, List.pairwise_append] at hpairwise
    have hmsg : ∀ {r : Received} {k : ℤ}, r.offset = some k → r.isMsg = true := by
      intro r k hrk
      cases r with
      | msg _ _ => rfl
      | timeout => cases hrk
    refine lt_irrefl k (hpairwise.2.2 r (List.mem_filter.2 ⟨hr, hmsg hrk⟩) received ?_ k hrk k hk)
    exact List.mem_filter.2 ⟨List.mem_cons_self, hmsg hk⟩
  rw [after, heq, List.dropWhile_append_of_pos hbefore, List.dropWhile_cons_of_neg, List.tail_cons]
  simp [hk]

omit [FluidexCommon] [Babyjubjub] [UserKey] in
/-- Where the message is in the log after which the other ones have nothing left to do. -/
theorem SettledAfter.exists_eq {offset : Option ℤ} {s : GlobalState lv}
    (h : SettledAfter offset (log.take k) s) : ∃ before received again,
      log = before ++ received :: (again ++ log.drop k) ∧ received.offset = offset ∧
        ∀ r ∈ again, r = .timeout ∨ r.Settled s := by
  obtain ⟨_, received, _, heq, hoffset, hsettled⟩ := h
  obtain ⟨before, rest, hsplit, -, hrest⟩ := List.filter_eq_append_iff.1 heq
  obtain ⟨before', again, rfl, -, -, hagain⟩ := List.filter_eq_cons_iff.1 hrest
  refine ⟨before ++ before', received, again, ?_, hoffset, fun r hr => ?_⟩
  · conv_lhs => rw [← List.take_append_drop k log, hsplit]
    simp only [List.append_assoc, List.cons_append]
  · cases hmsg : r.isMsg with
    | true => exact .inr (hsettled r (hagain ▸ List.mem_filter.2 ⟨hr, hmsg⟩))
    | false =>
      cases r with
      | msg _ _ => cases hmsg
      | timeout => exact .inl rfl

/-- The offset of the snapshot is that of a message of the log. -/
theorem Snapshot.Recorded.exists_eq {snapshot : Snapshot lv}
    (h : snapshot.Recorded log nTx persistEveryNBlock) : ∃ before received rest,
      log = before ++ received :: rest ∧ received.offset = some snapshot.kafkaOffset := by
  obtain ⟨k, _, _, -, htook, hsame⟩ := h
  obtain ⟨before, received, again, hlog, hoffset, -⟩ := htook.settled.exists_eq
  exact ⟨before, received, again ++ log.drop k, hlog, by rw [hoffset, hsame.kafkaOffset]⟩

/-- A process that is started over the snapshot follows the loop that is not stopped, from where
    it has taken the snapshot. -/
theorem Snapshot.Recorded.follows {snapshot : Snapshot lv} (hinc : Increasing log) (hpos : 0 < nTx)
    (h : snapshot.Recorded log nTx persistEveryNBlock) {s : GlobalState lv}
    (hs : s.Same snapshot.state) : ∃ k m, Follows log nTx persistEveryNBlock
      (.restart s nTx (some snapshot.blockOffset) persistEveryNBlock)
      (after snapshot.kafkaOffset log) k m := by
  obtain ⟨k, m, taken, hm, htook, hsame⟩ := h
  obtain ⟨hresumable, hpersist⟩ := hm.resumable hpos
  -- where the message of the snapshot is in the log
  obtain ⟨before, received, again, hlog, hoffset, hsettled⟩ := htook.settled.exists_eq
  refine ⟨k, m, hm, ⟨?_, hresumable.idle.nTx_eq.symm, htook.bufferedTxs.symm, ?_,
    hresumable.encodes.encoder.symm⟩, rfl, again, ?_, fun _ => htook.bufferedTxs, hsettled⟩
  · exact (hs.trans hsame.state).trans (by rw [htook.state]; exact .refl _)
  · exact hsame.blockOffset.trans htook.blockOffset
  · rw [hsame.kafkaOffset]
    exact after_eq hinc hlog hoffset

/-- The block that is forged is that of the loop that is not stopped, and so are the snapshots. -/
theorem Completes.forge (hinc : Increasing log) (hpos : 0 < nTx) {received : Received}
    {m₁ : Node lv} (h : Completes log nTx persistEveryNBlock n pending k received m m₁)
    {block : L2Block} {encoder : TxDataEncoder} {snapshots : List (Snapshot lv)}
    (hforge : forgeWithTxs n.manager.blockGenerateNum (n.manager.blockTxs 0)
      n.manager.txDataEncoder = .ok (block, encoder))
    (hpersist : (n.manager.nextBlock encoder).persistEvery n.persistEveryNBlock 0 =
      .ok snapshots) :
    ∃ m', Unstopped log nTx persistEveryNBlock (k + 1) m' ∧ block ∈ m'.blocks ∧
      ManagerWrapper.Same { n.manager.nextBlock encoder with bufferedTxs := [] } m'.manager ∧
      ∀ snapshot ∈ snapshots, snapshot.Recorded log nTx persistEveryNBlock := by
  obtain ⟨hm, hpersistEvery⟩ := h.unstopped.resumable hpos
  have hreceives := hm.idle.receive h.receive
  have hlen : m₁.manager.bufferedTxs.length = m₁.manager.nTx :=
    h.length_eq.trans hreceives.nTx_eq.symm
  rw [ManagerWrapper.blockTxs_zero (by rw [h.manager.bufferedTxs, h.manager.nTx, hlen]),
    h.manager.blockGenerateNum, h.manager.bufferedTxs, h.manager.txDataEncoder] at hforge
  have hnext : (n.manager.nextBlock encoder).Same (m₁.manager.nextBlock encoder) :=
    { h.manager with
      blockGenerateNum := congrArg (· + 1) h.manager.blockGenerateNum
      txDataEncoder := rfl }
  rw [h.persistEveryNBlock, ← hpersistEvery, ← hreceives.persistEveryNBlock] at hpersist
  obtain ⟨taken, htaken, hsame⟩ := (hnext.persistEvery_same _ 0).exists_ok hpersist
  -- it pops the same block
  have hst : m.processMsg received = .ok { m₁ with
      manager := { m₁.manager.nextBlock encoder with bufferedTxs := [] }
      blocks := m₁.blocks ++ [block]
      snapshots := m₁.snapshots ++ taken } := by
    rw [Node.processMsg, h.receive, Exec.ok_bind,
      Node.step_pop_of_eq (hpos.trans_eq hreceives.nTx_eq.symm) hlen, Node.popBlock]
    simp only [hforge, Exec.ok_bind, htaken]
    rfl
  have htake : log.take (k + 1) = log.take k ++ [received] := by
    rw [List.take_add_one, h.next]
    rfl
  have hproc := Node.processMsg_processed hm.idle hst
  refine ⟨_, h.unstopped.succ h.next hst, List.mem_append_right _ (List.mem_singleton_self _),
    ⟨hnext.state, hnext.nTx, rfl, hnext.blockGenerateNum, rfl⟩, fun snapshot hmem => ?_⟩
  obtain ⟨snapshot', hmem', hs⟩ : ∃ snapshot' ∈ taken, snapshot.Same snapshot' := by
    obtain ⟨i, hi, rfl⟩ := List.mem_iff_getElem.1 hmem
    exact ⟨_, List.getElem_mem (hsame.length_eq ▸ hi), hsame.get hi (hsame.length_eq ▸ hi)⟩
  refine ⟨k + 1, _, snapshot', h.unstopped.succ h.next hst, ?_, hs⟩
  rw [htake]
  refine hproc.took hm (htake ▸ hinc.take (k + 1)) ?_
  change snapshot' ∈ (m₁.snapshots ++ taken).drop m.snapshots.length
  rw [hreceives.snapshots, List.drop_left]
  exact hmem'

end Snapshots

end Following

end Rollup
