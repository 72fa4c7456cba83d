import Rollup.Restore
import Rollup.Snapshots

/-!
# Dumps

A snapshot is written to a database of its own, in a directory named after its block
offset, by four writes one after the other. The process may stop between any two of
them. When it starts again, the directory with the greatest number is loaded, whatever
is in it: the last snapshot is recovered exactly if the last dump was completed
(`recovers_iff`).
-/

namespace Rollup

section Dumps

variable [FluidexCommon] {lv : Levels}

/-! ## Writing -/

/-- The database of a dump: the offsets, under keys of their own, and the state. -/
structure DumpDb (lv : Levels) where
  blockOffset : Option ℕ
  kafkaOffset : Option ℤ
  state : SledDb lv

/-- A database to which nothing has been written yet. -/
def DumpDb.empty : DumpDb lv := ⟨none, none, .empty⟩

/-- The directories `<n>.db`. -/
abbrev Dumps (lv : Levels) := BTreeMap ℕ (DumpDb lv)

/-- A write to the directory `<n>.db`. -/
inductive DumpWrite (lv : Levels) where
  | openDb (n : ℕ)
  | insertBlockOffset (n blockOffset : ℕ)
  | insertKafkaOffset (n : ℕ) (kafkaOffset : ℤ)
  | dumpToSled (n : ℕ) (state : GlobalState lv)

namespace Dumps

/-- Changing the database of a directory. -/
def update (dumps : Dumps lv) (n : ℕ) (f : DumpDb lv → DumpDb lv) : Dumps lv :=
  match dumps.lookup n with
  | some db => dumps.insert n (f db)
  | none => dumps

variable (iterations : ℕ → Shuffle (ℕ × AccountState))

/-- Each write is atomic. A database is created by opening it. The accounts of the dump `n`
    are saved in the order of `iterations n`. -/
def write (dumps : Dumps lv) : DumpWrite lv → Dumps lv
  | .openDb n => if n ∈ dumps then dumps else dumps.insert n .empty
  | .insertBlockOffset n blockOffset =>
    dumps.update n fun db => { db with blockOffset := some blockOffset }
  | .insertKafkaOffset n kafkaOffset =>
    dumps.update n fun db => { db with kafkaOffset := some kafkaOffset }
  | .dumpToSled n state =>
    dumps.update n fun db => { db with state := state.persist (iterations n) db.state }

/-- Writes made one after the other. -/
def writeAll (dumps : Dumps lv) (writes : List (DumpWrite lv)) : Dumps lv :=
  writes.foldl (write iterations) dumps

end Dumps

namespace ManagerWrapper

/-- What `persist` writes. Without an offset, it panics before it is done. -/
def persistWrites (m : ManagerWrapper lv) (i : ℕ) : List (DumpWrite lv) :=
  let n := m.blockGenerateNum
  [.openDb n, .insertBlockOffset n n] ++
    match lastOffset (m.blockTxs i) with
    | none => []
    | some kafkaOffset => [.insertKafkaOffset n kafkaOffset, .dumpToSled n m.state]

/-- The writes after a block, if its number is one at which the state is persisted. -/
def persistEveryWrites (m : ManagerWrapper lv) (persistEveryNBlock i : ℕ) : List (DumpWrite lv) :=
  if persistEveryNBlock ≠ 0 ∧ m.blockGenerateNum % persistEveryNBlock = 0 then m.persistWrites i
  else []

/-- What the loop of `popAllBlocks` writes, even if it panics later. -/
def popWrites (m : ManagerWrapper lv) (persistEveryNBlock i : ℕ) : (fuel : ℕ) → List (DumpWrite lv)
  | 0 => []
  | fuel + 1 =>
    if i + m.nTx ≤ m.bufferedTxs.length then
      match forgeWithTxs m.blockGenerateNum (m.blockTxs i) m.txDataEncoder with
      | .error _ => []
      | .ok (_, encoder) =>
        let m := m.nextBlock encoder
        m.persistEveryWrites persistEveryNBlock i ++
          match m.persistEvery persistEveryNBlock i with
          | .error _ => []
          | .ok _ => m.popWrites persistEveryNBlock (i + m.nTx) fuel
    else []

end ManagerWrapper

namespace Node

/-- Only popping blocks writes to the directories. -/
def opWrites (n : Node lv) : Op → List (DumpWrite lv)
  | .popAllBlocks =>
    n.manager.popWrites n.persistEveryNBlock 0 (n.manager.bufferedTxs.length + 1)
  | _ => []

/-- What a run writes, up to the end of the run or a panic. -/
def runWrites (n : Node lv) : List Op → List (DumpWrite lv)
  | [] => []
  | op :: ops => n.opWrites op ++
      match n.step op with
      | .error _ => []
      | .ok n => n.runWrites ops

/-- A manager over a restored state. -/
def restart (s : GlobalState lv) (nTx : ℕ) (blockOffset : Option ℕ) (persistEveryNBlock : ℕ) :
    Node lv where
  manager := ManagerWrapper.new s nTx blockOffset
  persistEveryNBlock := persistEveryNBlock
  emitted := []
  blocks := []
  snapshots := []

end Node

/-! ## Restarting -/

namespace Dumps

/-- The directory with the greatest number. -/
def getLatestDump (dumps : Dumps lv) : Option ℕ :=
  ((Maps.sortedPairs dumps).map Prod.fst).getLast?

/-- The offsets of the latest dump and its state, or nothing without a dump. An error while
    loading is a panic. -/
def getPersistentOffsets (dumps : Dumps lv) (s : GlobalState lv) :
    Except Panic ((Option ℕ × Option ℤ) × GlobalState lv) :=
  match dumps.getLatestDump with
  | none => pure ((none, none), s)
  | some n => do
    let db := (dumps.lookup n).getD .empty
    let s ← unwrap (s.loadPersist db.state).toOption
    pure ((db.blockOffset, db.kafkaOffset), s)

end Dumps

/-! ## Logs -/

/-- What is written for a snapshot. -/
def Snapshot.writes (snapshot : Snapshot lv) : List (DumpWrite lv) :=
  let n := snapshot.blockOffset
  [.openDb n, .insertBlockOffset n n, .insertKafkaOffset n snapshot.kafkaOffset,
    .dumpToSled n snapshot.state]

/-- A dump that is not completed. -/
inductive Begun (n : ℕ) : List (DumpWrite lv) → Prop
  | openDb : Begun n [.openDb n]
  | blockOffset : Begun n [.openDb n, .insertBlockOffset n n]
  | kafkaOffset (kafkaOffset : ℤ) :
      Begun n [.openDb n, .insertBlockOffset n n, .insertKafkaOffset n kafkaOffset]

/-- What is written by a manager that has generated `b` blocks: a snapshot after the other,
    the last one being left when there is no offset. -/
inductive Log (P : Snapshot lv → Prop) : ℕ → List (DumpWrite lv) → Prop
  | nil {b : ℕ} : Log P b []
  | panic {b n : ℕ} : b < n → Log P b [.openDb n, .insertBlockOffset n n]
  | snapshot {b : ℕ} {snapshot : Snapshot lv} {writes : List (DumpWrite lv)} :
      b < snapshot.blockOffset → P snapshot → Log P snapshot.blockOffset writes →
      Log P b (snapshot.writes ++ writes)

/-- Where the writing stops: some snapshots are completed, and the next one may have been begun. -/
structure Stops (P : Snapshot lv → Prop) (b : ℕ) (completed : List (Snapshot lv))
    (begun : List (DumpWrite lv)) : Prop where
  increasing : (b :: completed.map Snapshot.blockOffset).Pairwise (· < ·)
  all : ∀ snapshot ∈ completed, P snapshot
  begun : begun = [] ∨ ∃ n, (∀ i ∈ b :: completed.map Snapshot.blockOffset, i < n) ∧ Begun n begun

variable {P : Snapshot lv → Prop} {b b' : ℕ} {completed : List (Snapshot lv)}
  {writes begun : List (DumpWrite lv)}

omit [FluidexCommon]

/-- A dump that is not completed has no state yet. -/
theorem Begun.not_done {n : ℕ} (h : Begun n begun) (k : ℕ) (state : GlobalState lv) :
    .dumpToSled k state ∉ begun := by
  cases h <;> simp

theorem Stops.nil : Stops P b [] [] := ⟨by simp, by simp, .inl rfl⟩

/-- The writing stops in the middle of the first dump. -/
theorem Stops.begin {n : ℕ} (hn : b < n) (h : Begun n begun) : Stops P b [] begun :=
  ⟨by simp, by simp, .inr ⟨n, by simpa using hn, h⟩⟩

/-- The writing stops later than a snapshot that is completed. -/
theorem Stops.cons {snapshot : Snapshot lv} (hb : b < snapshot.blockOffset) (hp : P snapshot)
    (h : Stops P snapshot.blockOffset completed begun) : Stops P b (snapshot :: completed) begun := by
  have hlt : ∀ i ∈ snapshot.blockOffset :: completed.map Snapshot.blockOffset, b < i :=
    List.forall_mem_cons.2 ⟨hb, fun i hi => hb.trans ((List.pairwise_cons.1 h.increasing).1 i hi)⟩
  refine ⟨List.pairwise_cons.2 ⟨hlt, h.increasing⟩, List.forall_mem_cons.2 ⟨hp, h.all⟩,
    h.begun.imp_right ?_⟩
  rintro ⟨n, hn, hbegun⟩
  exact ⟨n, List.forall_mem_cons.2 ⟨hb.trans (hn _ List.mem_cons_self), hn⟩, hbegun⟩

namespace Log

/-- What was written after more blocks was written after fewer. -/
theorem mono (h : Log P b writes) (hb : b' ≤ b) : Log P b' writes := by
  cases h with
  | nil => exact .nil
  | panic hn => exact .panic (hb.trans_lt hn)
  | snapshot hn hp hlog => exact .snapshot (hb.trans_lt hn) hp hlog

/-- Wherever the writing is cut, some snapshots are completed and at most one is begun. -/
theorem take (h : Log P b writes) (k : ℕ) : ∃ completed begun,
    writes.take k = List.flatMap Snapshot.writes completed ++ begun ∧ Stops P b completed begun := by
  induction h generalizing k with
  | nil => exact ⟨[], [], List.take_nil, .nil⟩
  | panic hn =>
    rcases k with _ | _ | k
    · exact ⟨[], [], rfl, .nil⟩
    · exact ⟨[], _, rfl, .begin hn .openDb⟩
    · exact ⟨[], _, by simp, .begin hn .blockOffset⟩
  | snapshot hn hp _ ih =>
    -- The four writes of the snapshot, then those of the next ones.
    rcases k with _ | _ | _ | _ | k
    · exact ⟨[], [], rfl, .nil⟩
    · exact ⟨[], _, rfl, .begin hn .openDb⟩
    · exact ⟨[], _, rfl, .begin hn .blockOffset⟩
    · exact ⟨[], _, rfl, .begin hn (.kafkaOffset _)⟩
    · obtain ⟨completed, begun, htake, hstops⟩ := ih k
      refine ⟨_ :: completed, begun, ?_, hstops.cons hn hp⟩
      rw [List.flatMap_cons, List.append_assoc, ← htake]
      rfl

end Log

end Dumps

section RunWrites

variable [FluidexCommon] {lv : Levels} {P : Snapshot lv → Prop} {b : ℕ}
  {writes : List (DumpWrite lv)}

/-! ## What a run writes -/

namespace ManagerWrapper

variable {m m' : ManagerWrapper lv} {persistEveryNBlock i fuel : ℕ}

omit [FluidexCommon] in
/-- A snapshot is written, or begun, or none is due. -/
theorem persistEveryWrites_log
    (hP : ∀ snapshot : Snapshot lv, snapshot.state = m.state → P snapshot)
    (hb : b < m.blockGenerateNum) :
    (∀ e, m.persistEvery persistEveryNBlock i = .error e →
      Log P b (m.persistEveryWrites persistEveryNBlock i)) ∧
    ∀ snapshots writes, m.persistEvery persistEveryNBlock i = .ok snapshots →
      Log P m.blockGenerateNum writes →
        Log P b (m.persistEveryWrites persistEveryNBlock i ++ writes) := by
  unfold persistEvery persistEveryWrites
  by_cases hpos : persistEveryNBlock ≠ 0
  · rw [Exec.assert_of hpos, Exec.ok_bind]
    by_cases hdue : m.blockGenerateNum % persistEveryNBlock = 0
    · rw [if_pos hdue, if_pos ⟨hpos, hdue⟩]
      have hpersist : m.persist i = (unwrap (lastOffset (m.blockTxs i)) >>= fun kafkaOffset =>
          pure ⟨m.blockGenerateNum, kafkaOffset, m.state⟩) := rfl
      rw [hpersist]
      rw [persistWrites]
      cases hoffset : lastOffset (m.blockTxs i) with
      -- Without an offset the dump is begun, and the program stops.
      | none => exact ⟨fun _ _ => .panic hb, fun _ _ h => by cases h⟩
      | some kafkaOffset =>
        refine ⟨fun _ h => (by cases h), fun _ writes _ hw => ?_⟩
        have hlog : Log P b (Snapshot.writes ⟨m.blockGenerateNum, kafkaOffset, m.state⟩ ++ writes) :=
          .snapshot hb (hP _ rfl) hw
        exact hlog
    · rw [if_neg hdue, if_neg fun h : _ ∧ _ => hdue h.2]
      exact ⟨fun _ h => (by cases h), fun _ _ _ hw => hw.mono hb.le⟩
  · rw [if_neg fun h : _ ∧ _ => hpos h.1, Exec.assert, if_neg hpos]
    exact ⟨fun _ _ => .nil, fun _ _ h => by cases h⟩

/-- What is written while popping, and after it. -/
theorem popWrites_log (hP : ∀ snapshot : Snapshot lv, snapshot.state = m.state → P snapshot)
    (next : (List L2Block × List (Snapshot lv) × ℕ) × ManagerWrapper lv → List (DumpWrite lv))
    (hw : ∀ r, m.popLoop persistEveryNBlock i fuel = .ok r → Log P r.2.blockGenerateNum (next r)) :
    Log P m.blockGenerateNum (m.popWrites persistEveryNBlock i fuel ++
      match m.popLoop persistEveryNBlock i fuel with
      | .error _ => []
      | .ok r => next r) := by
  induction fuel generalizing m i next with
  | zero => exact hw _ rfl
  | succ fuel ih =>
    rw [popLoop] at hw ⊢
    rw [popWrites]
    split at hw
    · next hle =>
      rw [if_pos hle, if_pos hle]
      cases hforge : forgeWithTxs m.blockGenerateNum (m.blockTxs i) m.txDataEncoder with
      | error e => exact .nil
      | ok r =>
        obtain ⟨block, encoder⟩ := r
        rw [hforge, Exec.ok_bind] at hw
        dsimp only [Exec.ok_bind] at hw ⊢
        have hnum : m.blockGenerateNum < (m.nextBlock encoder).blockGenerateNum := Nat.lt_succ_self _
        cases hpersist : (m.nextBlock encoder).persistEvery persistEveryNBlock i with
        | error e =>
          rw [Exec.error_bind, List.append_nil, List.append_nil]
          exact (persistEveryWrites_log (m := m.nextBlock encoder) hP hnum).1 e hpersist
        | ok snapshots =>
          -- What is written for the block, then for the next ones.
          have hrest := ih (m := m.nextBlock encoder) (i := i + m.nTx) hP
            (fun r => next ((block :: r.1.1, snapshots ++ r.1.2.1, r.1.2.2), r.2))
            fun r h => hw ((block :: r.1.1, snapshots ++ r.1.2.1, r.1.2.2), r.2) (by
              rw [hpersist, Exec.ok_bind]
              change ((m.nextBlock encoder).popLoop persistEveryNBlock (i + m.nTx) fuel >>= _) = _
              rw [h]
              rfl)
          have hlog := (persistEveryWrites_log (m := m.nextBlock encoder) hP hnum).2 snapshots
            _ hpersist hrest
          have hnTx : (m.nextBlock encoder).nTx = m.nTx := rfl
          rw [Exec.ok_bind, List.append_assoc, hnTx]
          cases hr : (m.nextBlock encoder).popLoop persistEveryNBlock (i + m.nTx) fuel with
          | error e =>
            rw [hr] at hlog
            exact hlog
          | ok r =>
            rw [hr] at hlog
            exact hlog
    · next hlt =>
      rw [if_neg hlt, if_neg hlt]
      exact hw _ rfl

end ManagerWrapper

/-- Whatever the operations, the writes of a run are a log of snapshots, whose states are
    those of the states of the run. -/
theorem Node.runWrites_log {I : Node lv → Prop}
    (hI : ∀ n op n', I n → Node.step n op = .ok n' → I n')
    (hP : ∀ n, I n → ∀ snapshot : Snapshot lv, snapshot.state = n.state → P snapshot) {n : Node lv}
    (hn : I n) (ops : List Op) : Log P n.manager.blockGenerateNum (n.runWrites ops) := by
  induction ops generalizing n with
  | nil => exact .nil
  | cons op ops ih =>
    rw [runWrites]
    -- Only popping writes anything.
    by_cases hop : op = .popAllBlocks
    · subst hop
      have hlog := ManagerWrapper.popWrites_log (m := n.manager) (hP n hn)
        (fun r => Node.runWrites { n with
          manager := { r.2 with bufferedTxs := r.2.bufferedTxs.drop r.1.2.2 }
          blocks := n.blocks ++ r.1.1
          snapshots := n.snapshots ++ r.1.2.1 } ops)
        fun r (h : n.manager.popLoop n.persistEveryNBlock 0 (n.manager.bufferedTxs.length + 1) =
            .ok r) => ih (hI n .popAllBlocks _ hn (by
          rw [Node.step, ManagerWrapper.popAllBlocks, h]
          rfl))
      rw [opWrites, step, ManagerWrapper.popAllBlocks]
      cases hpop : n.manager.popLoop n.persistEveryNBlock 0 (n.manager.bufferedTxs.length + 1) with
      | error e =>
        rw [hpop] at hlog
        exact hlog
      | ok r =>
        rw [hpop] at hlog
        exact hlog
    · have hnone : n.opWrites op = [] := by
        cases op with
        | popAllBlocks => exact absurd rfl hop
        | _ => rfl
      rw [hnone, List.nil_append]
      cases hst : n.step op with
      | error e => exact .nil
      | ok n' => exact step_blockGenerateNum hop hst ▸ ih (hI n op n' hn hst)

end RunWrites

section Recovery

variable [FluidexCommon] {lv : Levels}

/-! ## What is written -/

/-- The database of the dump of a snapshot. -/
def Snapshot.db (iterations : ℕ → Shuffle (ℕ × AccountState)) (snapshot : Snapshot lv) :
    DumpDb lv where
  blockOffset := some snapshot.blockOffset
  kafkaOffset := some snapshot.kafkaOffset
  state := snapshot.state.persist (iterations snapshot.blockOffset) .empty

namespace Dumps

variable {iterations : ℕ → Shuffle (ℕ × AccountState)} {dumps : Dumps lv}
  {snapshot : Snapshot lv} {completed older : List (Snapshot lv)} {begun : List (DumpWrite lv)}
  {n : ℕ}

omit [FluidexCommon] in
/-- An update is to one of the directories. -/
theorem lookup_update (dumps : Dumps lv) (n : ℕ) (f : DumpDb lv → DumpDb lv) (k : ℕ) :
    (dumps.update n f).lookup k = if k = n then (dumps.lookup n).map f else dumps.lookup k := by
  rw [update]
  split
  · next db hdb => rw [lookup_insert_ite, hdb, Option.map_some]
  · next hnone =>
    split
    · next hk => rw [hk, hnone, Option.map_none]
    · rfl

theorem writeAll_append (writes writes' : List (DumpWrite lv)) :
    dumps.writeAll iterations (writes ++ writes') =
      (dumps.writeAll iterations writes).writeAll iterations writes' :=
  List.foldl_append

/-- Completing a dump. -/
theorem lookup_writeAll_writes (hnew : snapshot.blockOffset ∉ dumps) (k : ℕ) :
    (dumps.writeAll iterations snapshot.writes).lookup k =
      if k = snapshot.blockOffset then some (snapshot.db iterations) else dumps.lookup k := by
  simp only [writeAll, Snapshot.writes, List.foldl_cons, List.foldl_nil, write, if_neg hnew,
    lookup_update, lookup_insert_ite]
  split <;> rfl

/-- Beginning a dump. -/
theorem lookup_writeAll_begun (hnew : n ∉ dumps) (h : Begun n begun) :
    ∃ db : DumpDb lv, db.state = .empty ∧ ∀ k,
      (dumps.writeAll iterations begun).lookup k = if k = n then some db else dumps.lookup k := by
  cases h with
  | openDb =>
    refine ⟨.empty, rfl, fun k => ?_⟩
    simp only [writeAll, List.foldl_cons, List.foldl_nil, write, if_neg hnew, lookup_insert_ite]
  | blockOffset =>
    refine ⟨{ DumpDb.empty with blockOffset := some n }, rfl, fun k => ?_⟩
    simp only [writeAll, List.foldl_cons, List.foldl_nil, write, if_neg hnew, lookup_update,
      lookup_insert_ite]
    split <;> rfl
  | kafkaOffset kafkaOffset =>
    refine ⟨⟨some n, some kafkaOffset, .empty⟩, rfl, fun k => ?_⟩
    simp only [writeAll, List.foldl_cons, List.foldl_nil, write, if_neg hnew, lookup_update,
      lookup_insert_ite]
    split <;> rfl

/-- The directories are those of the dumps of these snapshots. -/
def Of (iterations : ℕ → Shuffle (ℕ × AccountState)) (dumps : Dumps lv)
    (snapshots : List (Snapshot lv)) : Prop :=
  ∀ n db, dumps.lookup n = some db ↔
    ∃ snapshot ∈ snapshots, snapshot.blockOffset = n ∧ snapshot.db iterations = db

namespace Of

/-- There is one directory for each snapshot. -/
theorem mem_iff (h : dumps.Of iterations older) :
    n ∈ dumps ↔ n ∈ older.map Snapshot.blockOffset := by
  rw [← AList.lookup_isSome, Option.isSome_iff_exists, List.mem_map]
  simp only [h n]
  constructor
  · rintro ⟨_, snapshot, hmem, hn, -⟩
    exact ⟨snapshot, hmem, hn⟩
  · rintro ⟨snapshot, hmem, hn⟩
    exact ⟨_, snapshot, hmem, hn, rfl⟩

/-- A snapshot with a new number gets a directory of its own. -/
theorem write (h : dumps.Of iterations older) (hnew : snapshot.blockOffset ∉ dumps) :
    Of iterations (dumps.writeAll iterations snapshot.writes) (older ++ [snapshot]) := by
  intro n db
  rw [lookup_writeAll_writes hnew]
  simp only [List.mem_append, List.mem_singleton]
  split
  · next hn =>
    subst hn
    rw [Option.some.injEq]
    constructor
    · exact fun hdb => ⟨snapshot, .inr rfl, rfl, hdb⟩
    · rintro ⟨snapshot', hmem | rfl, hn, hdb⟩
      · exact absurd (h.mem_iff.2 (List.mem_map.2 ⟨snapshot', hmem, hn⟩)) hnew
      · exact hdb
  · next hn =>
    rw [h n]
    constructor
    · rintro ⟨snapshot', hmem, heq⟩
      exact ⟨snapshot', .inl hmem, heq⟩
    · rintro ⟨snapshot', hmem | rfl, heq, hdb⟩
      · exact ⟨snapshot', hmem, heq, hdb⟩
      · exact absurd heq.symm hn

/-- Completing dumps one after the other. -/
theorem writeAll (h : dumps.Of iterations older)
    (hinc : ((older ++ completed).map Snapshot.blockOffset).Pairwise (· < ·)) :
    Of iterations (dumps.writeAll iterations (completed.flatMap Snapshot.writes))
      (older ++ completed) := by
  induction completed generalizing dumps older with
  | nil =>
    rw [List.append_nil]
    exact h
  | cons snapshot completed ih =>
    have hnew : snapshot.blockOffset ∉ dumps := by
      intro hmem
      rw [List.map_append, List.pairwise_append] at hinc
      exact lt_irrefl _ (hinc.2.2 _ (h.mem_iff.1 hmem) _ List.mem_cons_self)
    rw [List.flatMap_cons, writeAll_append, List.append_cons]
    exact ih (h.write hnew) (by rwa [← List.append_cons])

end Of

/-! ## What is recovered -/

/-- The restart completes with the last of the snapshots, or with the new state if there is
    none: its offsets, and what is loaded from its state. -/
def Recovers (iterations : ℕ → Shuffle (ℕ × AccountState)) (dumps : Dumps lv)
    (snapshots : List (Snapshot lv)) : Prop :=
  match snapshots.getLast? with
  | none => dumps.getPersistentOffsets (.new lv) = .ok ((none, none), .new lv)
  | some snapshot => ∃ s,
    (GlobalState.new lv).loadPersist (snapshot.db iterations).state = .ok s ∧
      s.root = snapshot.state.root ∧ dumps.getPersistentOffsets (.new lv) =
        .ok ((some snapshot.blockOffset, some snapshot.kafkaOffset), s)

/-- The writes complete these dumps and possibly begin another one. -/
structure Splits (writes : List (DumpWrite lv)) (completed : List (Snapshot lv))
    (begun : List (DumpWrite lv)) : Prop where
  eq : writes = completed.flatMap Snapshot.writes ++ begun
  not_done : ∀ n state, .dumpToSled n state ∉ begun

omit [FluidexCommon] in
/-- There is only one way to tell what is completed from what is begun. -/
theorem Splits.unique {writes : List (DumpWrite lv)} {completed' : List (Snapshot lv)}
    {begun' : List (DumpWrite lv)} (h : Splits writes completed begun)
    (h' : Splits writes completed' begun') : completed = completed' ∧ begun = begun' := by
  obtain ⟨rfl, hbegun⟩ := h
  obtain ⟨heq, hbegun'⟩ := h'
  induction completed generalizing completed' with
  | nil =>
    cases completed' with
    | nil => exact ⟨rfl, heq⟩
    | cons snapshot completed' =>
      refine absurd ?_ (hbegun snapshot.blockOffset snapshot.state)
      rw [List.flatMap_nil, List.nil_append] at heq
      rw [heq]
      simp [Snapshot.writes]
  | cons snapshot completed ih =>
    cases completed' with
    | nil =>
      refine absurd ?_ (hbegun' snapshot.blockOffset snapshot.state)
      rw [List.flatMap_nil, List.nil_append] at heq
      rw [← heq]
      simp [Snapshot.writes]
    | cons snapshot' completed' =>
      -- The four writes say which snapshot it is.
      simp only [List.flatMap_cons, Snapshot.writes, List.cons_append, List.nil_append,
        List.cons.injEq, DumpWrite.insertKafkaOffset.injEq, DumpWrite.dumpToSled.injEq] at heq
      obtain ⟨-, -, ⟨hn, hkafka⟩, ⟨-, hstate⟩, heq⟩ := heq
      obtain ⟨rfl, rfl⟩ := ih heq
      obtain ⟨n, kafkaOffset, state⟩ := snapshot
      obtain ⟨n', kafkaOffset', state'⟩ := snapshot'
      obtain rfl : n = n' := hn
      obtain rfl : kafkaOffset = kafkaOffset' := hkafka
      obtain rfl : state = state' := hstate
      exact ⟨rfl, rfl⟩

omit [FluidexCommon] in
/-- The latest directory is the one with the greatest number. -/
theorem getLatestDump_eq_some_iff : dumps.getLatestDump = some n ↔ n ∈ dumps ∧ ∀ k ∈ dumps, k ≤ n :=
  Maps.getLast?_sortedPairs_eq_some_iff

/-- The latest dump is that of the last snapshot. -/
theorem Of.getLatestDump (h : dumps.Of iterations older)
    (hinc : (older.map Snapshot.blockOffset).Pairwise (· < ·)) :
    dumps.getLatestDump = (older.map Snapshot.blockOffset).getLast? := by
  cases hlast : (older.map Snapshot.blockOffset).getLast? with
  | some n =>
    refine getLatestDump_eq_some_iff.2 ⟨h.mem_iff.2 (List.mem_of_getLast? hlast), fun k hk => ?_⟩
    rcases Maps.eq_or_rel_of_getLast? hinc hlast (h.mem_iff.1 hk) with rfl | hlt
    · exact le_rfl
    · exact hlt.le
  | none =>
    cases hn : dumps.getLatestDump with
    | none => rfl
    | some n =>
      have hmem := h.mem_iff.1 (getLatestDump_eq_some_iff.1 hn).1
      rw [List.getLast?_eq_none_iff.1 hlast] at hmem
      cases hmem

end Dumps

/-- The state has a ledger, over the default nodes. -/
def GlobalState.HasLedger (s : GlobalState lv) : Prop :=
  ∃ L, Shows s L ∧ ∀ a e, L a = some e → e.Defaults

namespace GlobalState.HasLedger

variable {s : GlobalState lv}

theorem new (lv : Levels) : (GlobalState.new lv).HasLedger :=
  ⟨_, shows_new lv, fun _ _ h => by cases h⟩

/-- No step of the manager loses the ledger of the state. -/
theorem step {n n' : Node lv} {op : Op} (h : n.state.HasLedger) (hst : n.step op = .ok n') :
    n'.state.HasLedger := by
  obtain ⟨L, h, hL⟩ := h
  exact Node.step_ledger (Entry.Defaults.create lv) (fun _ _ he => he.change) h hL hst

/-- A state with a ledger is restored from a dump, with its root. -/
theorem loadPersist (h : s.HasLedger) (iteration : Shuffle (ℕ × AccountState)) :
    ∃ s', (GlobalState.new lv).loadPersist (s.persist iteration .empty) = .ok s' ∧
      s'.root = s.root := by
  obtain ⟨L, h, hL⟩ := h
  obtain ⟨s', hload, htree, -⟩ := loadPersist_spec h hL iteration (.new lv)
  exact ⟨s', hload, congrArg Tree.getRoot htree⟩

end GlobalState.HasLedger

namespace Dumps

variable {iterations : ℕ → Shuffle (ℕ × AccountState)} {dumps : Dumps lv}
  {completed older : List (Snapshot lv)} {begun : List (DumpWrite lv)} {n : ℕ}

/-- The last snapshot is recovered from the dumps of the snapshots. -/
theorem Of.recovers (h : dumps.Of iterations older)
    (hinc : (older.map Snapshot.blockOffset).Pairwise (· < ·))
    (hall : ∀ snapshot ∈ older, snapshot.state.HasLedger) : Recovers iterations dumps older := by
  have hlatest := h.getLatestDump hinc
  rw [List.getLast?_map] at hlatest
  unfold Recovers getPersistentOffsets
  rw [hlatest]
  cases hlast : older.getLast? with
  | none => rfl
  | some snapshot =>
    have hmem := List.mem_of_getLast? hlast
    obtain ⟨s, hload, hroot⟩ := (hall snapshot hmem).loadPersist (iterations snapshot.blockOffset)
    refine ⟨s, hload, hroot, ?_⟩
    have hdb := (h snapshot.blockOffset _).2 ⟨snapshot, hmem, rfl, rfl⟩
    simp only [Option.map_some, hdb, Option.getD_some]
    change (unwrap ((GlobalState.new lv).loadPersist
      (snapshot.state.persist (iterations snapshot.blockOffset) .empty)).toOption >>= _) = _
    rw [hload]
    rfl

/-- Loading a dump that is only begun is a panic. -/
theorem getPersistentOffsets_begun (h : Begun n begun) (hn : ∀ k ∈ dumps, k < n)
    (s : GlobalState lv) :
    (dumps.writeAll iterations begun).getPersistentOffsets s = .error .unwrap := by
  obtain ⟨db, hdb, hlookup⟩ := lookup_writeAll_begun (fun hmem => lt_irrefl n (hn n hmem)) h
  have hself : (dumps.writeAll iterations begun).lookup n = some db := by
    rw [hlookup, if_pos rfl]
  have hlatest : (dumps.writeAll iterations begun).getLatestDump = some n := by
    refine getLatestDump_eq_some_iff.2 ⟨AList.lookup_isSome.1 (by rw [hself]; rfl), fun k hk => ?_⟩
    rw [← AList.lookup_isSome, hlookup] at hk
    split at hk
    · next hkn => exact hkn.le
    · exact (hn k (AList.lookup_isSome.1 hk)).le
  rw [getPersistentOffsets, hlatest]
  simp only [hself, Option.getD_some, hdb]
  rfl

end Dumps

/-! ## Crashes and restarts -/

/-- A node over these dumps: it is started, runs for some time and stops after some of its
    writes, is started again from what is left, and so on. When it is started again, no
    account of the last snapshot is lost whose leaf is stored. -/
inductive Started (iterations : ℕ → Shuffle (ℕ × AccountState)) (nTx persistEveryNBlock : ℕ) :
    Dumps lv → List (Snapshot lv) → Node lv → Prop
  | first : Started iterations nTx persistEveryNBlock ∅ [] (.new lv nTx none persistEveryNBlock)
  | again {dumps : Dumps lv} {older completed : List (Snapshot lv)} {begun : List (DumpWrite lv)}
      {n : Node lv} {ops : List Op} {k : ℕ} {blockOffset : Option ℕ} {kafkaOffset : Option ℤ}
      {s : GlobalState lv} : Started iterations nTx persistEveryNBlock dumps older n →
      Dumps.Splits ((n.runWrites ops).take k) completed begun →
      (dumps.writeAll iterations ((n.runWrites ops).take k)).getPersistentOffsets (.new lv) =
        .ok ((blockOffset, kafkaOffset), s) →
      (∀ snapshot ∈ (older ++ completed).getLast?, snapshot.state.Unambiguous) →
      Started iterations nTx persistEveryNBlock
        (dumps.writeAll iterations ((n.runWrites ops).take k)) (older ++ completed)
        (.restart s nTx blockOffset persistEveryNBlock)

/-- The dumps are those of earlier snapshots. -/
structure Node.Over (iterations : ℕ → Shuffle (ℕ × AccountState)) (dumps : Dumps lv)
    (older : List (Snapshot lv)) (n : Node lv) : Prop where
  of : dumps.Of iterations older
  increasing : (older.map Snapshot.blockOffset).Pairwise (· < ·)
  hasLedger : ∀ snapshot ∈ older, snapshot.state.HasLedger
  le : ∀ snapshot ∈ older, snapshot.blockOffset ≤ n.manager.blockGenerateNum
  state : n.state.HasLedger

section Crash

variable {iterations : ℕ → Shuffle (ℕ × AccountState)} {nTx persistEveryNBlock : ℕ}
  {dumps : Dumps lv} {older completed : List (Snapshot lv)} {begun : List (DumpWrite lv)}
  {n : Node lv}

/-- Wherever the writing stops, some dumps are completed, over the earlier ones, and the
    next one may be begun. -/
theorem Node.Over.stops (h : n.Over iterations dumps older) (ops : List Op) (k : ℕ) :
    ∃ completed begun, Dumps.Splits ((n.runWrites ops).take k) completed begun ∧
      Stops (fun snapshot => snapshot.state.HasLedger) n.manager.blockGenerateNum completed
        begun := by
  have hlog := Node.runWrites_log (I := fun n : Node lv => n.state.HasLedger)
    (P := fun snapshot : Snapshot lv => snapshot.state.HasLedger)
    (fun _ _ _ hm hst => hm.step hst) (fun _ hm _ hstate => hstate ▸ hm) h.state ops
  obtain ⟨completed, begun, heq, hstops⟩ := hlog.take k
  refine ⟨completed, begun, ⟨heq, ?_⟩, hstops⟩
  rcases hstops.begun with rfl | ⟨m, -, hbegun⟩
  · exact fun _ _ => List.not_mem_nil
  · exact hbegun.not_done

variable (h : n.Over iterations dumps older)
  (hstops : Stops (fun snapshot => snapshot.state.HasLedger) n.manager.blockGenerateNum completed
    begun)
include h hstops

/-- The numbers of the snapshots increase over the restarts. -/
theorem Node.Over.increasing_append :
    ((older ++ completed).map Snapshot.blockOffset).Pairwise (· < ·) := by
  have hinc := List.pairwise_cons.1 hstops.increasing
  rw [List.map_append, List.pairwise_append]
  refine ⟨h.increasing, hinc.2, fun i hi j hj => ?_⟩
  obtain ⟨snapshot, hmem, rfl⟩ := List.mem_map.1 hi
  exact (h.le snapshot hmem).trans_lt (hinc.1 j hj)

/-- Every snapshot is one that can be restored. -/
theorem Node.Over.hasLedger_append : ∀ snapshot ∈ older ++ completed, snapshot.state.HasLedger := by
  intro snapshot hmem
  rcases List.mem_append.1 hmem with hmem | hmem
  · exact h.hasLedger snapshot hmem
  · exact hstops.all snapshot hmem

/-- If a dump is begun, the restart is a panic. -/
theorem Node.Over.getPersistentOffsets_eq {writes : List (DumpWrite lv)}
    (heq : writes = completed.flatMap Snapshot.writes ++ begun) (hbegun : begun ≠ [])
    (s : GlobalState lv) :
    (dumps.writeAll iterations writes).getPersistentOffsets s = .error .unwrap := by
  subst heq
  obtain ⟨m, hm, hbegun⟩ := hstops.begun.resolve_left hbegun
  rw [Dumps.writeAll_append]
  refine Dumps.getPersistentOffsets_begun hbegun (fun k hk => ?_) s
  -- All the other dumps come before the one that is begun.
  have hof := h.of.writeAll (h.increasing_append hstops)
  obtain ⟨snapshot, hmem, rfl⟩ := List.mem_map.1 (hof.mem_iff.1 hk)
  rcases List.mem_append.1 hmem with hmem | hmem
  · exact (h.le snapshot hmem).trans_lt (hm _ List.mem_cons_self)
  · exact hm _ (List.mem_cons_of_mem _ (List.mem_map_of_mem hmem))

/-- The last snapshot is recovered unless another dump is begun. -/
theorem Node.Over.recovers_iff_nil {writes : List (DumpWrite lv)}
    (heq : writes = completed.flatMap Snapshot.writes ++ begun) :
    (dumps.writeAll iterations writes).Recovers iterations (older ++ completed) ↔ begun = [] := by
  constructor
  · intro hrec
    by_contra hbegun
    have herror := h.getPersistentOffsets_eq hstops heq hbegun (.new lv)
    rw [Dumps.Recovers] at hrec
    rw [herror] at hrec
    split at hrec
    · cases hrec
    · obtain ⟨_, -, -, hok⟩ := hrec
      cases hok
  · rintro rfl
    rw [heq, List.append_nil]
    exact (h.of.writeAll (h.increasing_append hstops)).recovers (h.increasing_append hstops)
      (h.hasLedger_append hstops)

end Crash

variable {iterations : ℕ → Shuffle (ℕ × AccountState)} {nTx persistEveryNBlock : ℕ}
  {dumps : Dumps lv} {older : List (Snapshot lv)} {n : Node lv}

/-- A node that is started goes on where its dumps end. -/
theorem Started.over (h : Started iterations nTx persistEveryNBlock dumps older n) :
    n.Over iterations dumps older := by
  induction h with
  | first =>
    refine ⟨fun n db => ⟨fun hdb => ?_, ?_⟩, .nil, ?_, ?_, .new lv⟩
    · cases hdb
    · rintro ⟨_, hmem, -⟩
      cases hmem
    · exact fun _ hmem => by cases hmem
    · exact fun _ hmem => by cases hmem
  | @again dumps older completed begun n ops k blockOffset kafkaOffset s _ hsplits hrestart hs ih =>
    obtain ⟨completed', begun', hsplits', hstops⟩ := ih.stops ops k
    obtain ⟨rfl, rfl⟩ := hsplits.unique hsplits'
    have hinc := ih.increasing_append hstops
    have hall := ih.hasLedger_append hstops
    -- The restart has completed: no dump was only begun.
    have hbegun : begun = [] := by
      by_contra hbegun
      rw [ih.getPersistentOffsets_eq hstops hsplits.eq hbegun] at hrestart
      cases hrestart
    have hrec := (ih.recovers_iff_nil hstops hsplits.eq).2 hbegun
    have hof := ih.of.writeAll hinc
    rw [hsplits.eq, hbegun, List.append_nil] at hrestart hrec ⊢
    rw [Dumps.Recovers] at hrec
    rw [hrestart] at hrec
    cases hlast : (older ++ completed).getLast? with
    | none =>
      rw [hlast] at hrec
      obtain ⟨-, rfl⟩ := Prod.mk.inj (Except.ok.inj hrec)
      rw [List.getLast?_eq_none_iff.1 hlast] at hof hinc ⊢
      exact ⟨hof, hinc, fun _ hmem => (by cases hmem), fun _ hmem => (by cases hmem), .new lv⟩
    | some snapshot =>
      rw [hlast] at hrec
      obtain ⟨s', hload, -, hok⟩ := hrec
      obtain ⟨hoffsets, rfl⟩ := Prod.mk.inj (Except.ok.inj hok)
      obtain ⟨rfl, -⟩ := Prod.mk.inj hoffsets
      have hmem := List.mem_of_getLast? hlast
      obtain ⟨L, hL, hdefaults⟩ := hall snapshot hmem
      refine ⟨hof, hinc, hall, fun snapshot' hmem' => ?_,
        hL.restored hdefaults (hs snapshot hlast) _ hload⟩
      rcases Maps.eq_or_rel_of_getLast? hinc (by rw [List.getLast?_map, hlast]; rfl)
        (List.mem_map_of_mem hmem') with heq | hlt
      · exact heq.le
      · exact hlt.le

end Recovery

/-- Two blocks of one message, each with a snapshot. -/
def dumpOps : List Op :=
  [.keyUpdate ⟨0, ⟨1, 1, 5⟩⟩ (some 0), .popAllBlocks, .deposit ⟨0, 1, 50, none⟩ (some 1),
    .popAllBlocks]

section DumpOps

attribute [local instance] FluidexCommon.sample

theorem length_runWrites_dumpOps :
    ((Node.new Levels.small 1 none 1).runWrites dumpOps).length = 8 := by decide +kernel

theorem over_dumpOps : (Node.new Levels.small 1 none 1).Over (fun _ => .id) ∅ [] :=
  (Started.first : Started (fun _ => .id) 1 1 ∅ [] (Node.new Levels.small 1 none 1)).over

/-- Of the eight writes, those before the crash are split by fours. -/
theorem exists_splits_dumpOps {k : ℕ} (hk : k ≤ 8) : ∃ completed begun,
    Dumps.Splits (((Node.new Levels.small 1 none 1).runWrites dumpOps).take k) completed begun ∧
      Stops (fun snapshot => snapshot.state.HasLedger) 0 completed begun ∧
      4 * completed.length + begun.length = k ∧ begun.length < 4 := by
  obtain ⟨completed, begun, hsplits, hstops⟩ := over_dumpOps.stops dumpOps k
  refine ⟨completed, begun, hsplits, hstops, ?_, ?_⟩
  · have hlen := congrArg List.length hsplits.eq
    rw [List.length_take, length_runWrites_dumpOps, List.length_append, List.length_flatMap] at hlen
    simp only [Snapshot.writes, List.length_cons, List.length_nil, List.map_const',
      List.sum_replicate, smul_eq_mul] at hlen
    omega
  · rcases hstops.begun with rfl | ⟨_, -, _ | _ | _⟩ <;> simp

end DumpOps

end Rollup
