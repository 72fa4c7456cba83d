import Rollup.Ledger.Steps
import Rollup.Same

/-!
# When the transactions are accepted

What a transaction checks, and whether its writes succeed, is decided by the entries of the
accounts it names: `Ledger.Runs` says, of a ledger alone, that a transaction is accepted and
leads to another ledger. A state that shows the first one accepts the transaction, whatever
the schedule of its tasks, and leads to a state that shows the second one
(`Ledger.Runs.exists_apply`), and it accepts no other transaction (`runs_of_apply`).

A transfer to oneself is left out: the ledger it leads to depends on the schedule.
-/

namespace Rollup

variable [FluidexCommon] {lv : Levels} {s s' : GlobalState lv} {L L' : Ledger lv} {a : ℕ}
  {e e' f f' : Entry lv} {offset : Option ℤ}

open GlobalState

/-! ## The functions of the global state -/

/-- The hash of an account that exists is always computed. -/
theorem recalculateAccountStateHash_eq (h : Holds s L) (he : L a = some e) :
    s.recalculateAccountStateHash a = .ok (e.commit.state.hash,
      { s with accountStates := s.accountStates.insert a e.commit.state }) := by
  simp only [recalculateAccountStateHash, unwrap, h.lookup_accountStates he,
    h.lookup_balanceTrees he, h.lookup_orderTrees he, Exec.unwrap_some, Exec.ok_bind]
  rfl

/-- An account that exists has a leaf to write to. -/
theorem exists_flushAccountState (h : Holds s L) (he : L a = some e) :
    ∃ s', s.flushAccountState a = .ok s' := by
  obtain ⟨t, ht⟩ := s.accountTree.exists_setValue (h.lt he) e.commit.state.hash
  simp only [flushAccountState, recalculateAccountStateHash_eq h he, Exec.ok_bind,
    Exec.bind_eq_ok_iff, Exec.pure_eq_ok_iff]
  exact ⟨_, t, ht, rfl⟩

/-- An account that exists may get any key. -/
theorem exists_setAccountL2Addr (h : Holds s L) (he : L a = some e) (sign ay : Fr) :
    ∃ s', s.setAccountL2Addr a sign ay = .ok s' := by
  obtain ⟨t, ht⟩ := s.accountTree.exists_setValue (h.lt he) (e.state.updateL2Addr sign ay).hash
  simp only [setAccountL2Addr, Exec.bind_eq_ok_iff, Exec.unwrap_eq_ok_iff, Exec.pure_eq_ok_iff]
  exact ⟨_, e.state, h.lookup_accountStates he, t, ht, rfl⟩

theorem exists_setNewL2Addr (h : Holds s L) (he : L a = some e) (l2key : Option L2Key) :
    ∃ s', s.setNewL2Addr a l2key = .ok s' := by
  cases l2key with
  | none => exact ⟨s, rfl⟩
  | some l2key => exact exists_setAccountL2Addr h he l2key.sign l2key.ay

theorem exists_increaseNonce (h : Holds s L) (he : L a = some e) :
    ∃ s', s.increaseNonce a = .ok s' := by
  have h₁ := h.insertState he (e.state.updateNonce (e.state.nonce + 1))
  obtain ⟨s', hs'⟩ := exists_flushAccountState h₁ (L.set_self a _)
  simp only [increaseNonce, setAccountNonce, updateNonce, unwrap, h.lookup_accountStates he,
    Exec.unwrap_some, Exec.ok_bind, pure_bind]
  exact ⟨s', hs'⟩

/-- An account in range exists, or is created. -/
theorem exists_ensureAccount (s : GlobalState lv) (ha : a < 2 ^ lv.accountLevels) :
    ∃ s', s.ensureAccount a = .ok s' := by
  unfold ensureAccount initAccount
  split
  · exact ⟨s, rfl⟩
  · obtain ⟨t, ht⟩ := s.accountTree.exists_setValue ha lv.defaultAccountLeaf
    rw [if_neg (not_le.2 ha), ht]
    exact ⟨_, rfl⟩

/-- A balance is set if its tree takes the value. -/
theorem exists_setTokenBalance (h : Shows s L) (ha : a < 2 ^ lv.accountLevels) {token : ℕ} {v : Fr}
    {t : Tree lv.balanceLevels} (ht : (L.entry a).balanceTree.setValue token v = .ok t) :
    ∃ s', s.setTokenBalance a token v = .ok s' := by
  obtain ⟨s₁, hs₁⟩ := exists_ensureAccount s ha
  have h₁ := ensureAccount_spec h hs₁
  have he := L.set_self a (L.entry a)
  have hmem : a ∈ s₁.balanceTrees := h₁.mem_balanceTrees.2 (by rw [he]; rfl)
  obtain ⟨s₂, hs₂⟩ := exists_flushAccountState (h₁.insertBalanceTree he t) (Ledger.set_self _ a _)
  refine ⟨s₂, ?_⟩
  simp only [setTokenBalance, setTokenBalanceRaw, hs₁, Exec.ok_bind, assert, Exec.assert_of hmem,
    unwrap, h₁.lookup_balanceTrees he, Exec.unwrap_some, ht, pure_bind]
  exact hs₂

/-! ## Batches -/

omit [FluidexCommon] in
/-- Any order may be stored for an account that exists. -/
theorem updateOrderState_eq (h : Holds s L) (he : L a = some e) (pos : ℕ) (order : Order) :
    s.updateOrderState a pos order = .ok { s with
      orderStates := s.orderStates.insert a (e.orders.insert pos order) } := by
  rw [updateOrderState, unwrap, h.lookup_orderStates he]
  rfl

/-- The two tasks on the trees of an account, one after the other. -/
theorem exists_runTasks (h : Holds s L) {u : AccountUpdates} (he : L u.accountId = some e)
    (hb : e.Batch u e') : ∃ s' e₁, s.runTasks u.tasks = .ok s' ∧
      Holds s' (L.set u.accountId e₁) := by
  obtain ⟨bt, ot, hbt, hot, -⟩ := hb
  have h₁ := h.insertBalanceTree he bt
  have he₁ := L.set_self u.accountId (e.setBalanceTree bt)
  have h₂ := h₁.insertOrderTree he₁ ot
  rw [L.set_idem] at h₂
  refine ⟨{ s with
    balanceTrees := s.balanceTrees.insert u.accountId bt
    orderTrees := s.orderTrees.insert u.accountId ot }, _, ?_, h₂⟩
  simp only [AccountUpdates.tasks, runTasks, List.foldlM_cons, List.foldlM_nil]
  refine Exec.bind_eq_ok_iff.2 ⟨_, Exec.bind_eq_ok_iff.2 ⟨e.balanceTree, ?_,
    Exec.bind_eq_ok_iff.2 ⟨bt, hbt, rfl⟩⟩, ?_⟩
  · exact Exec.unwrap_eq_ok_iff.2 (h.lookup_balanceTrees he)
  · refine Exec.bind_eq_ok_iff.2 ⟨_, Exec.bind_eq_ok_iff.2 ⟨e.orderTree, ?_,
      Exec.bind_eq_ok_iff.2 ⟨ot, hot, rfl⟩⟩, rfl⟩
    exact Exec.unwrap_eq_ok_iff.2 (h₁.lookup_orderTrees he₁ :)

omit [FluidexCommon] in
/-- The nonce is updated in the state only. -/
theorem exists_updateNewNonce (h : Holds s L) (he : L a = some e) (nonce : Option Fr) :
    ∃ s', s.updateNewNonce a nonce = .ok s' ∧ Holds s' (L.set a (e.setNewNonce nonce)) ∧
      s'.accountTree = s.accountTree := by
  cases nonce with
  | none => exact ⟨s, rfl, by rwa [Entry.setNewNonce, Ledger.set_eq_self he], rfl⟩
  | some nonce =>
    refine ⟨_, ?_, h.insertState he (e.state.updateNonce nonce), rfl⟩
    rw [updateNewNonce, updateNonce, unwrap, h.lookup_accountStates he]
    rfl

/-- The states of accounts that exist are updated one after the other. -/
theorem exists_updateAccountStates (h : Holds s L) {us : List AccountUpdates}
    (hus : ∀ u ∈ us, (L u.accountId).isSome) :
    ∃ (hashes : List (ℕ × Fr)) (s' : GlobalState lv) (L' : Ledger lv),
      s.updateAccountStates us = .ok (hashes, s') ∧ Holds s' L' ∧
        ∀ a, (L a).isSome → (L' a).isSome := by
  induction us generalizing s L with
  | nil => exact ⟨[], s, L, rfl, h, fun _ => id⟩
  | cons u us ih =>
    obtain ⟨e, he⟩ := Option.isSome_iff_exists.1 (hus u List.mem_cons_self)
    obtain ⟨s₁, hs₁, h₁, -⟩ := exists_updateNewNonce h he u.newNonce
    have he₁ := L.set_self u.accountId (e.setNewNonce u.newNonce)
    have hhash := recalculateAccountStateHash_eq h₁ he₁
    obtain ⟨-, h₂, -⟩ := recalculateAccountStateHash_spec h₁ he₁ hhash
    have hsome (a : ℕ) (ha : (L a).isSome) := Ledger.isSome_set
      (Ledger.isSome_set ha u.accountId (e.setNewNonce u.newNonce)) u.accountId
      (e.setNewNonce u.newNonce).commit
    obtain ⟨hashes, s', L', hs', h', hsome'⟩ :=
      ih h₂ fun v hv => hsome _ (hus v (List.mem_cons_of_mem u hv))
    refine ⟨(u.accountId, (e.setNewNonce u.newNonce).commit.state.hash) :: hashes, s', L', ?_, h',
      fun a ha => hsome' a (hsome a ha)⟩
    exact Exec.bind_eq_ok_iff.2 ⟨s₁, hs₁, Exec.bind_eq_ok_iff.2 ⟨_, hhash,
      Exec.bind_eq_ok_iff.2 ⟨_, hs', rfl⟩⟩⟩

/-- The schedule of the tasks does not decide what an account becomes. -/
theorem Entry.Batch.unique {u : AccountUpdates} (h : e.Batch u e') (h' : e.Batch u f') : e' = f' := by
  obtain ⟨bt, ot, hbt, hot, rfl⟩ := h
  obtain ⟨bt', ot', hbt', hot', rfl⟩ := h'
  obtain rfl := Except.ok.inj (hbt.symm.trans hbt')
  obtain rfl := Except.ok.inj (hot.symm.trans hot')
  rfl

omit [FluidexCommon] in
theorem checkTrees_eq (h : Holds s L) {us : List AccountUpdates}
    (hus : ∀ u ∈ us, (L u.accountId).isSome) : s.checkTrees us = .ok () := by
  induction us with
  | nil => rfl
  | cons u us ih =>
    obtain ⟨hu, hus⟩ := List.forall_mem_cons.1 hus
    exact Exec.assert_bind_eq_ok_iff.2 ⟨h.mem_balanceTrees.2 hu,
      Exec.assert_bind_eq_ok_iff.2 ⟨h.mem_orderTrees.2 hu, ih hus⟩⟩

omit [FluidexCommon] in
/-- Replacing the entry of an account keeps those of the others. -/
theorem Ledger.exists_set_of_notMem {P : AccountUpdates → Entry lv → Prop} {us : List AccountUpdates}
    (ha : a ∉ us.map AccountUpdates.accountId)
    (hus : ∀ u ∈ us, ∃ e, L u.accountId = some e ∧ P u e) (e' : Entry lv) :
    ∀ u ∈ us, ∃ e, L.set a e' u.accountId = some e ∧ P u e := by
  intro u hu
  have hne : u.accountId ≠ a := fun heq => ha (heq ▸ List.mem_map_of_mem hu)
  rw [L.set_of_ne _ hne]
  exact hus u hu

/-- The tasks on the trees of different accounts, in the order of the list. -/
theorem exists_runTasks_flatMap (h : Holds s L) {us : List AccountUpdates}
    (hnd : (us.map AccountUpdates.accountId).Nodup)
    (hus : ∀ u ∈ us, ∃ e, L u.accountId = some e ∧ ∃ e', e.Batch u e') :
    ∃ (s' : GlobalState lv) (L' : Ledger lv),
      s.runTasks (us.flatMap AccountUpdates.tasks) = .ok s' ∧ Holds s' L' ∧
        ∀ a, (L a).isSome → (L' a).isSome := by
  induction us generalizing s L with
  | nil => exact ⟨s, L, rfl, h, fun _ => id⟩
  | cons u us ih =>
    obtain ⟨⟨e, he, e', hb⟩, hus⟩ := List.forall_mem_cons.1 hus
    rw [List.map_cons, List.nodup_cons] at hnd
    obtain ⟨s₁, e₁, hs₁, h₁⟩ := exists_runTasks h he hb
    obtain ⟨s', L', hs', h', hsome⟩ := ih h₁ hnd.2 (Ledger.exists_set_of_notMem hnd.1 hus e₁)
    refine ⟨s', L', ?_, h', fun a ha => hsome a (Ledger.isSome_set ha _ _)⟩
    rw [GlobalState.runTasks, List.flatMap_cons, List.foldlM_append]
    exact Exec.bind_eq_ok_iff.2 ⟨s₁, hs₁, hs'⟩

/-- Once the tasks have run, nothing stops a batch. -/
theorem exists_batchUpdate_of_runTasks (h : Holds s L) {us : List AccountUpdates}
    (hus : ∀ u ∈ us, (L u.accountId).isSome) {schedule : Shuffle Task} {s₁ : GlobalState lv}
    {L₁ : Ledger lv} (hs₁ : s.runTasks (schedule.order (us.flatMap AccountUpdates.tasks)) = .ok s₁)
    (h₁ : Holds s₁ L₁) (hsome₁ : ∀ a, (L a).isSome → (L₁ a).isSome) :
    ∃ (s' : GlobalState lv) (L' : Ledger lv), s.batchUpdate schedule us true = .ok s' ∧
      Holds s' L' ∧ ∀ a, (L a).isSome → (L' a).isSome := by
  obtain ⟨hashes, s₂, L₂, hs₂, h₂, hsome₂⟩ :=
    exists_updateAccountStates h₁ fun u hu => hsome₁ _ (hus u hu)
  obtain ⟨t, hset⟩ : ∃ t, s₂.accountTree.setValueParallel hashes 2 = .ok t :=
    ⟨_, Tree.setValueParallel_eq _ _ (by decide)⟩
  refine ⟨{ s₂ with accountTree := t }, L₂, ?_, h₂.setAccountTree t,
    fun a ha => hsome₂ a (hsome₁ a ha)⟩
  rw [batchUpdate, if_pos rfl]
  exact Exec.bind_eq_ok_iff.2 ⟨(), checkTrees_eq h hus, Exec.bind_eq_ok_iff.2 ⟨s₁, hs₁,
    Exec.bind_eq_ok_iff.2 ⟨_, hs₂, Exec.bind_eq_ok_iff.2 ⟨_, hset, rfl⟩⟩⟩⟩

/-- A batch on different accounts is made if their trees can be updated. -/
theorem exists_batchUpdate_of (h : Holds s L) {us : List AccountUpdates}
    (hnd : (us.map AccountUpdates.accountId).Nodup)
    (hus : ∀ u ∈ us, ∃ e, L u.accountId = some e ∧ ∃ e', e.Batch u e') (schedule : Shuffle Task) :
    ∃ s', s.batchUpdate schedule us true = .ok s' := by
  have hsome : ∀ u ∈ us, (L u.accountId).isSome := by
    intro u hu
    obtain ⟨e, he, -⟩ := hus u hu
    rw [he]
    rfl
  -- the schedule does not matter: the tasks are run in the order of the list
  obtain ⟨s₁, L₁, hs₁, h₁, hsome₁⟩ := exists_runTasks_flatMap h hnd hus
  have hs₁ : s.runTasks (Shuffle.id.order (us.flatMap AccountUpdates.tasks)) = .ok s₁ := hs₁
  obtain ⟨s', -, hs', -⟩ := exists_batchUpdate_of_runTasks h hsome hs₁ h₁ hsome₁
  have hrel : Exec.Related Same (s.batchUpdate .id us true) (s.batchUpdate schedule us true) :=
    (Same.refl s).batchUpdate (.inr hnd)
  obtain ⟨t, ht, -⟩ := hrel.exists_ok hs'
  exact ⟨t, ht⟩

/-- Tasks that write no orders can be run in any order. -/
theorem exists_runTasks_of_orders_nil (h : Holds s L) {us : List AccountUpdates}
    (hus : ∀ u ∈ us, (L u.accountId).isSome ∧ u.orderUpdates = []) {tasks : List Task}
    (htasks : ∀ task ∈ tasks, ∃ u ∈ us, task ∈ u.tasks) :
    ∃ (s' : GlobalState lv) (L' : Ledger lv), s.runTasks tasks = .ok s' ∧ Holds s' L' ∧
      ∀ a, (L a).isSome → (L' a).isSome := by
  induction tasks generalizing s L with
  | nil => exact ⟨s, L, rfl, h, fun _ => id⟩
  | cons task tasks ih =>
    obtain ⟨⟨u, hu, htask⟩, htasks⟩ := List.forall_mem_cons.1 htasks
    obtain ⟨hsome, ho⟩ := hus u hu
    obtain ⟨e, he⟩ := Option.isSome_iff_exists.1 hsome
    have hrun : ∃ s₁ e₁, s.runTask task = .ok s₁ ∧ Holds s₁ (L.set u.accountId e₁) := by
      rcases List.mem_pair.1 htask with rfl | rfl
      · exact ⟨_, _, Exec.bind_eq_ok_iff.2 ⟨_, Exec.unwrap_eq_ok_iff.2 (h.lookup_balanceTrees he),
          Exec.bind_eq_ok_iff.2 ⟨_, Tree.setValueParallel_eq _ _ (by decide), rfl⟩⟩,
          h.insertBalanceTree he _⟩
      · rw [ho]
        exact ⟨_, _, Exec.bind_eq_ok_iff.2 ⟨_, Exec.unwrap_eq_ok_iff.2 (h.lookup_orderTrees he),
          Exec.bind_eq_ok_iff.2 ⟨_, rfl, rfl⟩⟩, h.insertOrderTree he _⟩
    obtain ⟨s₁, e₁, hs₁, h₁⟩ := hrun
    obtain ⟨s', L', hs', h', hsome'⟩ :=
      ih h₁ (fun v hv => ⟨Ledger.isSome_set (hus v hv).1 _ _, (hus v hv).2⟩) htasks
    refine ⟨s', L', ?_, h', fun a ha => hsome' a (Ledger.isSome_set ha _ _)⟩
    exact Exec.bind_eq_ok_iff.2 ⟨s₁, hs₁, hs'⟩

/-- A batch that writes no orders is made if the accounts exist, different or not. -/
theorem exists_batchUpdate_of_orders_nil (h : Holds s L) {us : List AccountUpdates}
    (hus : ∀ u ∈ us, (L u.accountId).isSome ∧ u.orderUpdates = []) (schedule : Shuffle Task) :
    ∃ (s' : GlobalState lv) (L' : Ledger lv), s.batchUpdate schedule us true = .ok s' ∧
      Holds s' L' ∧ ∀ a, (L a).isSome → (L' a).isSome := by
  obtain ⟨s₁, L₁, hs₁, h₁, hsome₁⟩ := exists_runTasks_of_orders_nil h hus
    fun task htask => List.mem_flatMap.1 ((schedule.perm _).mem_iff.1 htask)
  exact exists_batchUpdate_of_runTasks h (fun u hu => (hus u hu).1) hs₁ h₁ hsome₁

/-- A batch on two accounts. -/
theorem exists_batchUpdate (h : Shows s L) {u v : AccountUpdates}
    (hne : u.accountId ≠ v.accountId) (he : L u.accountId = some e) (hf : L v.accountId = some f)
    (hbe : e.Batch u e') (hbf : f.Batch v f') (schedule : Shuffle Task) :
    ∃ s', s.batchUpdate schedule [u, v] true = .ok s' ∧
      Shows s' ((L.set u.accountId e').set v.accountId f') := by
  have hus : ∀ w ∈ [u, v], ∃ e, L w.accountId = some e ∧ ∃ e', e.Batch w e' :=
    List.forall_mem_cons.2 ⟨⟨e, he, e', hbe⟩, List.forall_mem_singleton.2 ⟨f, hf, f', hbf⟩⟩
  obtain ⟨s', hs'⟩ := exists_batchUpdate_of h.toHolds (by simpa using hne) hus schedule
  obtain ⟨e₀, f₀, e₁, f₁, he₀, hf₀, hbe₁, hbf₁, h'⟩ := batchUpdate_pair_spec h hne hs'
  obtain rfl := Option.some.inj (he.symm.trans he₀)
  obtain rfl := Option.some.inj (hf.symm.trans hf₀)
  rw [hbe₁.unique hbe, hbf₁.unique hbf] at h'
  exact ⟨s', hs', h'⟩

/-! ## Orders -/

/-- A new order must be unknown and unfilled, any other one must be known. -/
theorem takeOrder_eq_ok_iff (h : Shows s L) {supplied : Option Order} {orderId : ℕ} {name : String}
    {order : Order} :
    s.takeOrder supplied a orderId name = .ok order ↔ L.Takes supplied a orderId order := by
  refine ⟨takeOrder_spec h, fun ht => ?_⟩
  cases supplied with
  | some o =>
    obtain ⟨rfl, hbuy, hsell, hnew⟩ := ht
    have hnew' : ¬s.hasOrder order.accountId order.orderId := mt (h.hasOrder_iff _ _).1 hnew
    exact Exec.assert_bind_eq_ok_iff.2 ⟨hnew', Exec.assert_bind_eq_ok_iff.2 ⟨hbuy,
      Exec.assert_bind_eq_ok_iff.2 ⟨hsell, rfl⟩⟩⟩
  | none =>
    obtain ⟨e, pos, he, hpos, rfl⟩ := ht
    have hhas : s.hasOrder a orderId := (h.hasOrder_iff _ _).2 ⟨e, pos, he, hpos⟩
    have hpos' : s.getOrderPosById a orderId = some pos := (h.lookup_orderIdToPos he _).trans hpos
    exact Exec.assert_bind_eq_ok_iff.2 ⟨hhas, Exec.assert_bind_eq_ok_iff.2 ⟨hhas,
      Exec.bind_eq_ok_iff.2 ⟨pos, Exec.unwrap_eq_ok_iff.2 hpos', h.getAccountOrderByPos_eq he pos⟩⟩⟩

/-- What a trade checks, of the ledger alone. -/
structure Trade.Allowed (T : Trade lv) (L : Ledger lv) (tx : FullSpotTradeTx) : Prop where
  ne : tx.trade.order1AccountId ≠ tx.trade.order2AccountId
  entry1 : L tx.trade.order1AccountId = some T.e1
  entry2 : L tx.trade.order2AccountId = some T.e2
  keyed1 : T.e1.state.ay ≠ 0
  keyed2 : T.e2.state.ay ≠ 0
  takes1 : L.Takes tx.makerOrder tx.trade.order1AccountId tx.trade.order1Id T.order1
  takes2 : L.Takes tx.takerOrder tx.trade.order2AccountId tx.trade.order2Id T.order2
  funds1 : tx.trade.amount1to2.val < (T.e1.balance tx.trade.tokenId1to2).val
  funds2 : tx.trade.amount2to1.val < (T.e2.balance tx.trade.tokenId2to1).val
  totals1 : ∃ amounts, compressTotals (T.new1 tx.trade) = .ok amounts
  totals2 : ∃ amounts, compressTotals (T.new2 tx.trade) = .ok amounts

/-- What is accepted was allowed: nothing else is asked of a trade. -/
theorem Trade.Accepted.allowed {T : Trade lv} {tx : FullSpotTradeTx} {e1' e2' : Entry lv}
    {rawTx : RawTx} (h : T.Accepted s L tx) (hraw : T.Describes tx.trade s s' e1' e2' rawTx) :
    T.Allowed L tx := by
  obtain ⟨amounts1, amounts2, h1, h2, -⟩ := hraw.payload
  exact ⟨h.ne, h.entry1, h.entry2, h.keyed1, h.keyed2, h.takes1, h.takes2, h.funds1, h.funds2,
    ⟨amounts1, h1⟩, ⟨amounts2, h2⟩⟩

/-- Orders that find their slots are placed. -/
theorem exists_placeOrders (h : Shows s L) {T : Trade lv} {tx : FullSpotTradeTx}
    (hT : T.Allowed L tx) {p1 p2 : Entry lv} (h1 : T.e1.Finds T.order1.orderId T.pos1 p1)
    (h2 : T.e2.Finds T.order2.orderId T.pos2 p2) :
    ∃ s', s.placeOrders tx = .ok ((⟨T.order1, T.pos1, T.e1.orderAt T.pos1⟩,
      ⟨T.order2, T.pos2, T.e2.orderAt T.pos2⟩), s') ∧
      Shows s' ((L.set tx.trade.order1AccountId p1).set tx.trade.order2AccountId p2) := by
  obtain ⟨s₁, hs₁, h₁⟩ := h1.findOrInsertOrder h hT.entry1
  have he2 : (L.set tx.trade.order1AccountId p1) tx.trade.order2AccountId = some T.e2 := by
    rw [L.set_of_ne p1 hT.ne.symm, hT.entry2]
  obtain ⟨s₂, hs₂, h₂⟩ := h2.findOrInsertOrder h₁ he2
  refine ⟨s₂, ?_, h₂⟩
  rw [placeOrders]
  exact Exec.bind_eq_ok_iff.2 ⟨_, (takeOrder_eq_ok_iff h).2 hT.takes1,
    Exec.bind_eq_ok_iff.2 ⟨_, (takeOrder_eq_ok_iff h).2 hT.takes2,
      Exec.bind_eq_ok_iff.2 ⟨_, hs₁, Exec.bind_eq_ok_iff.2 ⟨_, hs₂, rfl⟩⟩⟩⟩

/-- The entry of an account of a trade, once its order is stored. -/
theorem Entry.TradesAt.batch {order : Order} {pos : ℕ} {sell buy : Fr} {updates : List (ℕ × Fr)}
    (h : e.TradesAt order pos sell buy updates e') : ∃ p, e.Finds order.orderId pos p ∧
      ∀ u : AccountUpdates, u.balanceUpdates = updates →
        u.orderUpdates = [(pos, (order.tradeWith sell buy).hash)] → u.newNonce = none →
        (p.setOrder pos (order.tradeWith sell buy)).Batch u e' := by
  obtain ⟨p, ot, hf, hot, rfl⟩ := h
  refine ⟨p, hf, fun u hbalances horders hnonce =>
    ⟨updates.foldl (fun t u => t.put u.1 u.2) p.balanceTree, ot, ?_, ?_, ?_⟩⟩
  · rw [hbalances]
    exact Tree.setValueParallel_eq _ _ (by decide)
  · rw [← hf.place.orderTree_eq] at hot
    rw [horders]
    simp only [Tree.setValueParallel, one_ne_zero, if_false, if_true, List.foldlM_cons,
      List.foldlM_nil]
    exact Exec.bind_eq_ok_iff.2 ⟨ot, hot, rfl⟩
  · rw [hnonce]
    rfl

/-- A trade that is allowed is accepted, if the trees take its balances. -/
theorem exists_fullSpotTrade (h : Shows s L) {T : Trade lv} {tx : FullSpotTradeTx}
    (hT : T.Allowed L tx) {e1' e2' : Entry lv}
    (h1 : T.e1.TradesAt T.order1 T.pos1 tx.trade.amount1to2 tx.trade.amount2to1
      (T.updates1 tx.trade) e1')
    (h2 : T.e2.TradesAt T.order2 T.pos2 tx.trade.amount2to1 tx.trade.amount1to2
      (T.updates2 tx.trade) e2') (schedule : Shuffle Task) :
    ∃ r, s.fullSpotTrade schedule tx offset = .ok r ∧
      Shows r.2 ((L.set tx.trade.order1AccountId e1').set tx.trade.order2AccountId e2') := by
  obtain ⟨p1, hp1, hb1⟩ := h1.batch
  obtain ⟨p2, hp2, hb2⟩ := h2.batch
  obtain ⟨s₁, hplace, h₁⟩ := exists_placeOrders h hT hp1 hp2
  have hL1 : ((L.set tx.trade.order1AccountId p1).set tx.trade.order2AccountId p2)
      tx.trade.order1AccountId = some p1 := by rw [Ledger.set_of_ne _ p2 hT.ne, L.set_self]
  have hL2 : ((L.set tx.trade.order1AccountId p1).set tx.trade.order2AccountId p2)
      tx.trade.order2AccountId = some p2 := Ledger.set_self _ _ p2
  have hacc1 : s.hasAccount tx.trade.order1AccountId :=
    (h.hasAccount_iff _).2 (by rw [Ledger.entry_of_some hT.entry1]; exact hT.keyed1)
  have hacc2 : s.hasAccount tx.trade.order2AccountId :=
    (h.hasAccount_iff _).2 (by rw [Ledger.entry_of_some hT.entry2]; exact hT.keyed2)
  -- The orders are stored, then the trees are updated.
  have hs₂ := updateOrderState_eq h₁.toHolds hL1 T.pos1 (T.new1 tx.trade)
  obtain ⟨h₂, htree₂⟩ := updateOrderState_spec h₁.toHolds hL1 hs₂
  have h₂ := h₁.of_holds hL1 h₂ htree₂ rfl
  rw [Ledger.set_set_set _ hT.ne] at h₂
  have hs₃ := updateOrderState_eq h₂.toHolds (Ledger.set_self _ _ p2) T.pos2 (T.new2 tx.trade)
  obtain ⟨h₃, htree₃⟩ := updateOrderState_spec h₂.toHolds (Ledger.set_self _ _ p2) hs₃
  have h₃ := h₂.of_holds (Ledger.set_self _ _ p2) h₃ htree₃ rfl
  rw [Ledger.set_idem] at h₃
  have hq1 : ((L.set tx.trade.order1AccountId (p1.setOrder T.pos1 (T.new1 tx.trade))).set
      tx.trade.order2AccountId (p2.setOrder T.pos2 (T.new2 tx.trade)))
      tx.trade.order1AccountId = some (p1.setOrder T.pos1 (T.new1 tx.trade)) := by
    rw [Ledger.set_of_ne _ _ hT.ne, Ledger.set_self]
  obtain ⟨s₄, hs₄, h₄⟩ := exists_batchUpdate h₃ (u := {
      accountId := tx.trade.order1AccountId
      balanceUpdates := T.updates1 tx.trade
      orderUpdates := [(T.pos1, (T.new1 tx.trade).hash)]
      newNonce := none }) (v := {
      accountId := tx.trade.order2AccountId
      balanceUpdates := T.updates2 tx.trade
      orderUpdates := [(T.pos2, (T.new2 tx.trade).hash)]
      newNonce := none }) hT.ne
    hq1 (Ledger.set_self _ _ _)
    (hb1 _ rfl rfl rfl) (hb2 _ rfl rfl rfl) schedule
  rw [Ledger.set_set_set _ hT.ne, Ledger.set_idem] at h₄
  obtain ⟨amounts1, hamounts1⟩ := hT.totals1
  obtain ⟨amounts2, hamounts2⟩ := hT.totals2
  have hbalance (token : ℕ) : s₁.getTokenBalance tx.trade.order1AccountId token =
      .ok (T.e1.balance token) := by
    rw [h₁.getTokenBalance_eq, Ledger.entry_of_some hL1, hp1.place.balance_eq]
  have hbalance' (token : ℕ) : s₁.getTokenBalance tx.trade.order2AccountId token =
      .ok (T.e2.balance token) := by
    rw [h₁.getTokenBalance_eq, Ledger.entry_of_some hL2, hp2.place.balance_eq]
  have horder1 : s₁.orderProof tx.trade.order1AccountId T.pos1 = .ok (p1.orderTree.getProof T.pos1) := by
    rw [orderProof, unwrap, h₁.lookup_orderTrees hL1]
    rfl
  have horder2 : s₁.orderProof tx.trade.order2AccountId T.pos2 = .ok (p2.orderTree.getProof T.pos2) := by
    rw [orderProof, unwrap, h₁.lookup_orderTrees hL2]
    rfl
  refine Exec.exists_assert_bind hT.ne (Exec.exists_assert_bind hacc1
    (Exec.exists_assert_bind hacc2 (Exec.exists_bind hplace ?_)))
  refine Exec.exists_bind (hbalance _) (Exec.exists_assert_bind hT.funds1
    (Exec.exists_bind (hbalance _) (Exec.exists_bind (hbalance' _) ?_)))
  refine Exec.exists_assert_bind hT.funds2 (Exec.exists_bind (hbalance' _) ?_)
  refine Exec.exists_bind horder1 (Exec.exists_bind horder2 ?_)
  refine Exec.exists_bind hs₂ (Exec.exists_bind hs₃ (Exec.exists_bind hs₄ ?_))
  exact Exec.exists_bind hamounts1 (Exec.exists_bind hamounts2 (Exec.exists_pure h₄))

/-! ## The transactions -/

/-- A transaction is accepted from `L`, and leads to the last ledger. -/
inductive Ledger.Runs (L : Ledger lv) : Op → Ledger lv → Prop
  | keyUpdate {tx : UpdateKeyTx} {offset : Option ℤ} {t : Tree lv.balanceLevels} :
      (L.entry tx.accountId).state.ay = 0 → tx.accountId < 2 ^ lv.accountLevels →
      (L.entry tx.accountId).balanceTree.setValue 0 0 = .ok t →
      Runs L (.keyUpdate tx offset) (L.set tx.accountId
        (((L.entry tx.accountId).setBalanceTree t).commit.setL2Addr tx.l2key.sign tx.l2key.ay))
  | deposit {tx : DepositTx} {offset : Option ℤ} {t : Tree lv.balanceLevels} :
      (tx.l2key = none ↔ (L.entry tx.accountId).state.ay ≠ 0) →
      tx.accountId < 2 ^ lv.accountLevels →
      (L.entry tx.accountId).balanceTree.setValue tx.tokenId
        ((L.entry tx.accountId).balance tx.tokenId + tx.amount.toFr) = .ok t →
      Runs L (.deposit tx offset) (L.set tx.accountId
        (((L.entry tx.accountId).setBalanceTree t).commit.setNewL2Addr tx.l2key))
  | transfer {schedule : Shuffle Task} {tx : TransferTx} {offset : Option ℤ} :
      tx.fromId ≠ tx.toId → L.CanTransfer tx →
      Runs L (.transfer schedule tx offset) ((L.set tx.fromId ((L.entry tx.fromId).send tx)).set tx.toId
        (((L.entry tx.toId).receive tx).setNewL2Addr tx.l2key))
  | withdraw {tx : WithdrawTx} {offset : Option ℤ} {t : Tree lv.balanceLevels} :
      tx.accountId < 2 ^ lv.accountLevels →
      (L.entry tx.accountId).balanceTree.setValue tx.tokenId
        ((L.entry tx.accountId).balance tx.tokenId - tx.amount.toFr) = .ok t →
      Runs L (.withdraw tx offset) (L.set tx.accountId
        (((L.entry tx.accountId).setBalanceTree t).setNonce
          ((L.entry tx.accountId).state.nonce + 1)).commit)
  | fullSpotTrade {schedule : Shuffle Task} {tx : FullSpotTradeTx} {offset : Option ℤ}
      {T : Trade lv} {e1' e2' : Entry lv} : T.Allowed L tx →
      T.e1.TradesAt T.order1 T.pos1 tx.trade.amount1to2 tx.trade.amount2to1
        (T.updates1 tx.trade) e1' →
      T.e2.TradesAt T.order2 T.pos2 tx.trade.amount2to1 tx.trade.amount1to2
        (T.updates2 tx.trade) e2' →
      Runs L (.fullSpotTrade schedule tx offset)
        ((L.set tx.trade.order1AccountId e1').set tx.trade.order2AccountId e2')

/-- The transactions that are described: not the transfers to oneself. -/
def Op.IsTransaction : Op → Prop
  | .keyUpdate _ _ | .deposit _ _ | .withdraw _ _ | .fullSpotTrade _ _ _ => True
  | .transfer _ tx _ => tx.fromId ≠ tx.toId
  | _ => False

/-- A state accepts a transaction if the ledger it shows does. -/
theorem runs_of_apply (h : Shows s L) {op : Op} (hop : op.IsTransaction) {rawTx : RawTx}
    (hr : s.apply op = .ok (some rawTx, s')) : ∃ L', L.Runs op L' ∧ Shows s' L' := by
  generalize hraw : some rawTx = raw at hr
  cases GlobalState.applied hr with
  | keyUpdate hr =>
    rcases keyUpdate_spec h hr with ⟨hnone, -⟩ | ⟨hacc, t, ht, h', -⟩
    · rw [hnone] at hraw
      cases hraw
    · rw [h.hasAccount_iff, not_not] at hacc
      exact ⟨_, .keyUpdate hacc (h'.lt (Ledger.set_self _ _ _)) ht, h'⟩
  | deposit hr =>
    rcases deposit_spec h hr with ⟨hnone, -⟩ | ⟨hkey, t, ht, h', -⟩
    · rw [hnone] at hraw
      cases hraw
    · rw [h.hasAccount_iff] at hkey
      exact ⟨_, .deposit hkey (h'.lt (Ledger.set_self _ _ _)) ht, h'⟩
  | transfer hr =>
    obtain ⟨hcan, htrans, -⟩ := transfer_spec h hr
    exact ⟨_, .transfer hop hcan, htrans.ne hop⟩
  | withdraw hr =>
    obtain ⟨t, ht, h', -⟩ := withdraw_spec h hr
    exact ⟨_, .withdraw (h'.lt (Ledger.set_self _ _ _)) ht, h'⟩
  | fullSpotTrade hr =>
    obtain ⟨T, e1', e2', hT, h1, h2, h', hdesc⟩ := fullSpotTrade_exact h hr
    exact ⟨_, .fullSpotTrade (hT.allowed hdesc) h1 h2, h'⟩
  | createNewAccount _ | setAccountL2Addr _ | setAccountNonce _ | setAccountOrder _
  | setTokenBalance _ | cancelOrder _ | nop | flushWithNop | popAllBlocks => exact hop.elim

/-- A key update of an account without a key is accepted. -/
theorem exists_keyUpdate (h : Shows s L) {tx : UpdateKeyTx} {t : Tree lv.balanceLevels}
    (hay : (L.entry tx.accountId).state.ay = 0) (ha : tx.accountId < 2 ^ lv.accountLevels)
    (ht : (L.entry tx.accountId).balanceTree.setValue 0 0 = .ok t) :
    ∃ rawTx s', s.keyUpdate tx offset = .ok (.ok rawTx, s') := by
  have hacc : ¬s.hasAccount tx.accountId := fun hacc => (h.hasAccount_iff _).1 hacc hay
  -- the balance is read as zero, and written again
  have hbal : (L.entry tx.accountId).balance 0 = 0 := by rw [Entry.balance, if_pos hay]
  obtain ⟨s₁, hs₁⟩ := exists_setTokenBalance h ha ht
  obtain ⟨t', -, h₁⟩ := setTokenBalance_spec h hs₁
  obtain ⟨s₂, hs₂⟩ := exists_setAccountL2Addr h₁.toHolds (L.set_self _ _) tx.l2key.sign tx.l2key.ay
  simp only [keyUpdate, if_neg hacc, h.getTokenBalance_eq, hbal, Exec.ok_bind, hs₁, hs₂]
  exact ⟨_, s₂, rfl⟩

/-- A deposit is accepted if it brings a key exactly when the account has none. -/
theorem exists_deposit (h : Shows s L) {tx : DepositTx} {t : Tree lv.balanceLevels}
    (hkey : tx.l2key = none ↔ (L.entry tx.accountId).state.ay ≠ 0)
    (ha : tx.accountId < 2 ^ lv.accountLevels)
    (ht : (L.entry tx.accountId).balanceTree.setValue tx.tokenId
      ((L.entry tx.accountId).balance tx.tokenId + tx.amount.toFr) = .ok t) :
    ∃ rawTx s', s.deposit tx offset = .ok (.ok rawTx, s') := by
  rw [← h.hasAccount_iff, ← Option.not_isSome_iff_eq_none] at hkey
  obtain ⟨s₁, hs₁⟩ := exists_setTokenBalance h ha ht
  obtain ⟨t', -, h₁⟩ := setTokenBalance_spec h hs₁
  obtain ⟨s₂, hs₂⟩ := exists_setNewL2Addr h₁.toHolds (L.set_self _ _) tx.l2key
  rw [deposit, if_neg fun hnew => hkey.2 hnew.2 hnew.1, if_neg fun hold => hold.2 (hkey.1 hold.1)]
  simp only [h.getTokenBalance_eq, Exec.ok_bind, hs₁, hs₂]
  exact ⟨_, s₂, rfl⟩

/-- A withdrawal is accepted whatever the balance. -/
theorem exists_withdraw (h : Shows s L) {tx : WithdrawTx} {t : Tree lv.balanceLevels}
    (ha : tx.accountId < 2 ^ lv.accountLevels)
    (ht : (L.entry tx.accountId).balanceTree.setValue tx.tokenId
      ((L.entry tx.accountId).balance tx.tokenId - tx.amount.toFr) = .ok t) :
    ∃ rawTx s', s.withdraw tx offset = .ok (rawTx, s') := by
  obtain ⟨s₁, hs₁⟩ := exists_setTokenBalance h ha ht
  obtain ⟨t', -, h₁⟩ := setTokenBalance_spec h hs₁
  obtain ⟨s₂, hs₂⟩ := exists_increaseNonce h₁.toHolds (L.set_self _ _)
  simp only [withdraw, h.getTokenBalance_eq, Exec.ok_bind, hs₁, hs₂]
  exact ⟨_, s₂, rfl⟩

/-- A transfer is accepted, to another account or not. -/
theorem exists_transfer (h : Shows s L) {tx : TransferTx} (hcan : L.CanTransfer tx)
    (schedule : Shuffle Task) : ∃ rawTx s', s.transfer schedule tx offset = .ok (rawTx, s') := by
  obtain ⟨⟨e, he, hay⟩, hfunds, f, hf⟩ := hcan
  have hacc : s.hasAccount tx.fromId :=
    (h.hasAccount_iff _).2 (by rw [Ledger.entry_of_some he]; exact hay)
  have hto : (L tx.toId).isSome := by
    rw [hf]
    rfl
  let acc1Updates : AccountUpdates :=
    { accountId := tx.fromId
      balanceUpdates := [(tx.tokenId, (L.entry tx.fromId).balance tx.tokenId - tx.amount.toFr)]
      orderUpdates := []
      newNonce := some (s.getAccountNonce tx.fromId + 1) }
  let acc2Updates : AccountUpdates :=
    { accountId := tx.toId
      balanceUpdates := [(tx.tokenId, (L.entry tx.toId).balance tx.tokenId + tx.amount.toFr)]
      orderUpdates := []
      newNonce := none }
  -- Both accounts exist, and no order is updated: nothing in the batch can fail.
  have hus : ∀ u ∈ [acc1Updates, acc2Updates], (L u.accountId).isSome ∧ u.orderUpdates = [] :=
    List.forall_mem_cons.2 ⟨⟨by rw [he]; rfl, rfl⟩, List.forall_mem_singleton.2 ⟨hto, rfl⟩⟩
  obtain ⟨s₁, L₁, hs₁, h₁, hsome₁⟩ := exists_batchUpdate_of_orders_nil h.toHolds hus schedule
  obtain ⟨f₁, hf₁⟩ := Option.isSome_iff_exists.1 (hsome₁ _ hto)
  obtain ⟨s₂, hs₂⟩ := exists_setNewL2Addr h₁ hf₁ tx.l2key
  have hok : ∃ r, s.transfer schedule tx offset = .ok r ∧ True := by
    refine Exec.exists_assert_bind hacc (Exec.exists_bind (h.getTokenBalance_eq _ _)
      (Exec.exists_bind (h.getTokenBalance_eq _ _) (Exec.exists_assert_bind hfunds ?_)))
    exact Exec.exists_bind hs₁ (Exec.exists_bind hs₂ (Exec.exists_pure trivial))
  obtain ⟨⟨rawTx, s'⟩, hr, -⟩ := hok
  exact ⟨rawTx, s', hr⟩

/-- A transaction that a ledger accepts is accepted by the states that show it. -/
theorem Ledger.Runs.exists_apply {op : Op} (hrun : L.Runs op L') (h : Shows s L) :
    ∃ rawTx s', s.apply op = .ok (some rawTx, s') ∧ Shows s' L' := by
  -- the state accepts the transaction, and what it then shows is what its spec says
  cases hrun with
  | keyUpdate hay ha ht =>
    obtain ⟨rawTx, s', hr⟩ := exists_keyUpdate h hay ha ht
    refine ⟨rawTx, s', by rw [apply, hr]; rfl, ?_⟩
    rcases keyUpdate_spec h hr with ⟨hnone, -⟩ | ⟨-, t, ht', h', -⟩
    · cases hnone
    · rwa [Except.ok.inj (ht.symm.trans ht')]
  | deposit hkey ha ht =>
    obtain ⟨rawTx, s', hr⟩ := exists_deposit h hkey ha ht
    refine ⟨rawTx, s', by rw [apply, hr]; rfl, ?_⟩
    rcases deposit_spec h hr with ⟨hnone, -⟩ | ⟨-, t, ht', h', -⟩
    · cases hnone
    · rwa [Except.ok.inj (ht.symm.trans ht')]
  | transfer hne hcan =>
    obtain ⟨rawTx, s', hr⟩ := exists_transfer h hcan _
    obtain ⟨-, htrans, -⟩ := transfer_spec h hr
    exact ⟨rawTx, s', by rw [apply, hr]; rfl, htrans.ne hne⟩
  | withdraw ha ht =>
    obtain ⟨rawTx, s', hr⟩ := exists_withdraw h ha ht
    refine ⟨rawTx, s', by rw [apply, hr]; rfl, ?_⟩
    obtain ⟨t, ht', h', -⟩ := withdraw_spec h hr
    rwa [Except.ok.inj (ht.symm.trans ht')]
  | fullSpotTrade hT h1 h2 =>
    obtain ⟨⟨rawTx, s'⟩, hr, h'⟩ := exists_fullSpotTrade h hT h1 h2 _
    exact ⟨rawTx, s', by rw [apply, hr]; rfl, h'⟩

end Rollup
