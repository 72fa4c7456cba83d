import Rollup.OrderIndex
import Rollup.Persist

/-!
# Restoring a state

A state that is persisted can always be loaded again, but the state that is loaded
may differ (`restores_iff`). An account is only found if its leaf is stored in the
account tree, which is not so as long as its state is that of a new account, and of
the accounts with the same state only one is kept. The ids of the orders are found
at the last position holding an order with the id, and the ids of the orders that
have been replaced are not found any more.
-/

namespace Rollup

section Restore

variable [FluidexCommon] {lv : Levels} {s s' : GlobalState lv} {L : Ledger lv} {a : ℕ}
  {e e' : Entry lv}

/-! ## Trees -/

theorem Tree.deserialize_serialize {h : ℕ} {t : Tree h} {leaf : Fr}
    (ht : t.defaultNodes = (Tree.empty h leaf).defaultNodes) : Tree.deserialize t.serialize = t := by
  obtain ⟨defaultNodes, data⟩ := t
  obtain rfl := ht
  rfl

/-- The default nodes of the trees of the entry are those of empty trees. -/
structure Entry.Defaults (e : Entry lv) : Prop where
  balanceTree : e.balanceTree.defaultNodes = lv.emptyBalanceTree.defaultNodes
  orderTree : e.orderTree.defaultNodes = lv.emptyOrderTree.defaultNodes

namespace Entry.Defaults

theorem create (lv : Levels) (n : ℕ) : (Entry.create lv n).Defaults := ⟨rfl, rfl⟩

theorem putBalances (he : e.Defaults) (updates : List (ℕ × Fr)) : (e.putBalances updates).Defaults :=
  ⟨(Tree.stored_foldl_put updates e.balanceTree).1.trans he.balanceTree, he.orderTree⟩

theorem change (he : e.Defaults) {op : Op} (h : e.Change op e') : e'.Defaults := by
  cases h with
  | l2Addr _ _ | nonce _ | cancel _ _ => exact ⟨he.balanceTree, he.orderTree⟩
  | setBalance _ hset => exact ⟨(Tree.defaultNodes_setValue hset).trans he.balanceTree, he.orderTree⟩
  | putBalances _ => exact ⟨(he.putBalances _).balanceTree, he.orderTree⟩
  | setOrder _ hset => exact ⟨he.balanceTree, (Tree.defaultNodes_setValue hset).trans he.orderTree⟩
  | trade _ htrade =>
    refine ⟨?_, (Tree.defaultNodes_setValue htrade.setValue_orderTree).trans he.orderTree⟩
    rw [htrade.balanceTree_eq]
    exact (he.putBalances _).balanceTree

end Entry.Defaults

/-! ## The database -/

namespace GlobalState

omit [FluidexCommon] in
/-- A map is saved as it is. -/
theorem lookup_saveSerializableMap {α β : Type} (f : α → β) (m : FnvHashMap ℕ α) (k : ℕ) :
    (saveSerializableMap f ∅ m).lookup k = (m.lookup k).map f :=
  Maps.lookup_collect_map m f k

/-- Of every account, the state is found under its hash, as that of some account. -/
theorem saveAccountState_spec (h : Holds s L) (iteration : Shuffle (ℕ × AccountState)) :
    (∀ x a acc, (s.saveAccountState iteration ∅).lookup x = some (a, acc) →
        acc.hash = x ∧ ∃ e, L a = some e ∧ e.state = acc) ∧
      ∀ a e, L a = some e → ∃ b f, (s.saveAccountState iteration ∅).lookup e.state.hash =
        some (b, f.state) ∧ L b = some f ∧ f.state.hash = e.state.hash := by
  have hmem : ∀ x a acc, (x, a, acc) ∈ (iteration.order (Maps.pairs s.accountStates)).map
      (fun acc => (acc.2.hash, acc)) ↔ acc.hash = x ∧ ∃ e, L a = some e ∧ e.state = acc := by
    intro x a acc
    have hpair : (a, acc) ∈ iteration.order (Maps.pairs s.accountStates) ↔
        ∃ e, L a = some e ∧ e.state = acc := by
      rw [(iteration.perm _).mem_iff, Maps.mem_pairs, h.accountStates, Option.map_eq_some_iff]
    simp only [List.mem_map, Prod.mk.injEq, ← hpair]
    constructor
    · rintro ⟨_, hacc, rfl, rfl⟩
      exact ⟨rfl, hacc⟩
    · rintro ⟨rfl, hacc⟩
      exact ⟨(a, acc), hacc, rfl, rfl⟩
  have hfound : ∀ x a acc, (s.saveAccountState iteration ∅).lookup x = some (a, acc) →
      acc.hash = x ∧ ∃ e, L a = some e ∧ e.state = acc :=
    fun x a acc hx => (hmem x a acc).1 (Maps.mem_of_lookup_collect hx)
  refine ⟨hfound, fun a e he => ?_⟩
  obtain ⟨⟨b, acc⟩, hb⟩ := Option.isSome_iff_exists.1 (AList.lookup_isSome.2
    (Maps.mem_collect ((hmem e.state.hash a e.state).2 ⟨rfl, e, he, rfl⟩)))
  obtain ⟨hhash, f, hf, rfl⟩ := hfound _ _ _ hb
  exact ⟨b, f, hb, hf, hhash⟩

omit [FluidexCommon] in
/-- What is loaded for the accounts, nothing being missing. -/
theorem loadTrees_spec {α β : Type} (deserialize : α → β) {accounts : FnvHashMap ℕ AccountState}
    {db : FnvHashMap ℕ α} (hdb : ∀ a ∈ accounts, a ∈ db) :
    ∃ trees, loadTrees deserialize accounts db = .ok trees ∧ ∀ a, trees.lookup a =
      if a ∈ accounts then (db.lookup a).map deserialize else none := by
  -- Every account has a tree in the table, so that the loading does not fail.
  have hload : ∀ a ∈ accounts.keys, ∃ kv, (do
      let tree ← Exec.unwrap GlobalStateError.notFound (db.lookup a)
      pure (a, deserialize tree)) = .ok kv := by
    intro a ha
    obtain ⟨tree, htree⟩ := Option.isSome_iff_exists.1 (AList.lookup_isSome.2 (hdb a ha))
    exact ⟨(a, deserialize tree), by rw [htree]; rfl⟩
  obtain ⟨trees, htrees, hmem⟩ := Exec.exists_mapM_eq_ok hload
  have hiff : ∀ a tree, (a, tree) ∈ trees ↔
      a ∈ accounts ∧ ∃ w, db.lookup a = some w ∧ deserialize w = tree := by
    intro a tree
    simp only [hmem, Exec.bind_eq_ok_iff, Exec.unwrap_eq_ok_iff, Exec.pure_eq_ok_iff,
      Prod.mk.injEq]
    constructor
    · rintro ⟨a', ha', w, hw, rfl, hw'⟩
      exact ⟨ha', w, hw, hw'⟩
    · rintro ⟨ha, w, hw, hw'⟩
      exact ⟨a, ha, w, hw, rfl, hw'⟩
  refine ⟨Maps.collect trees, by rw [loadTrees, htrees]; rfl, fun a => Option.ext fun tree => ?_⟩
  rw [Maps.lookup_collect_eq_some_iff, hiff]
  · split
    · next ha => simp [ha]
    · next ha => simp [ha]
  · -- No account is loaded with two trees.
    intro k v w hv hw
    obtain ⟨-, v', hv', rfl⟩ := (hiff k v).1 hv
    obtain ⟨-, w', hw', rfl⟩ := (hiff k w).1 hw
    rw [Option.some.inj (hv'.symm.trans hw')]

omit [FluidexCommon] in
/-- What is loaded is what was saved, of the accounts. -/
theorem loadTrees_saveSerializableMap {α β : Type} (f : α → β) (g : β → α)
    {accounts : FnvHashMap ℕ AccountState} {m : FnvHashMap ℕ α} (hm : ∀ a ∈ accounts, a ∈ m)
    (hgf : ∀ a v, m.lookup a = some v → g (f v) = v) :
    ∃ trees, loadTrees g accounts (saveSerializableMap f ∅ m) = .ok trees ∧
      ∀ a, trees.lookup a = if a ∈ accounts then m.lookup a else none := by
  have hdb : ∀ a ∈ accounts, a ∈ saveSerializableMap f ∅ m := by
    intro a ha
    rw [← AList.lookup_isSome, lookup_saveSerializableMap, Option.isSome_map, AList.lookup_isSome]
    exact hm a ha
  obtain ⟨trees, htrees, hlookup⟩ := loadTrees_spec g hdb
  refine ⟨trees, htrees, fun a => ?_⟩
  rw [hlookup, lookup_saveSerializableMap]
  cases hv : m.lookup a with
  | none => rfl
  | some v => rw [Option.map_some, Option.map_some, hgf a v hv]

end GlobalState

/-! ## The accounts that are found -/

omit [FluidexCommon] in
/-- The stored leaves of a tree. -/
theorem Tree.mem_iter {h : ℕ} {t : Tree h} {idx : ℕ} {leaf : Fr} :
    (idx, leaf) ∈ t.iter ↔ idx < 2 ^ h ∧ idx ∈ t.data ∧ t.getLeaf idx = leaf := by
  have hiter : (idx, leaf) ∈ t.iter ↔ idx < 2 ^ h ∧ t.data.lookup idx = some leaf := by
    rw [← Maps.mem_pairs]
    simp only [Tree.iter, Maps.pairs, List.mem_map, List.mem_filter, Prod.mk.injEq,
      decide_eq_true_eq]
    constructor
    · rintro ⟨node, ⟨hnode, hlt⟩, rfl, rfl⟩
      exact ⟨hlt, node, hnode, rfl, rfl⟩
    · rintro ⟨hlt, node, hnode, rfl, rfl⟩
      exact ⟨node, ⟨hnode, hlt⟩, rfl, rfl⟩
  rw [hiter, ← AList.lookup_isSome, Tree.getLeaf, Tree.getValue, Tree.flattenedIdx,
    Tree.levelOffset_zero, zero_add]
  cases t.data.lookup idx <;> simp

/-- Every account is found by the hash of its state. -/
structure Ledger.Findable (L : Ledger lv) (t : Tree lv.accountLevels) : Prop where
  stored : ∀ a e, L a = some e → a ∈ t.data
  different : ∀ a b e f, L a = some e → L b = some f → e.state.hash = f.state.hash → a = b

/-- The accounts that are loaded are accounts of the state, among them those whose leaf is
    stored and whose hash is not that of another one, and all of them exactly when every
    account can be found. -/
theorem loadAccountState_spec (h : Shows s L) (iteration : Shuffle (ℕ × AccountState)) :
    ∃ accounts, GlobalState.loadAccountState s.accountTree (s.saveAccountState iteration ∅) =
        .ok accounts ∧
      (∀ a acc, accounts.lookup a = some acc → ∃ e, L a = some e ∧ e.state = acc) ∧
      (∀ a e, L a = some e → a ∈ s.accountTree.data →
        (∀ b f, L b = some f → f.state.hash = e.state.hash → b = a) → a ∈ accounts) ∧
      ((∀ a e, L a = some e → a ∈ accounts) ↔ L.Findable s.accountTree) := by
  obtain ⟨hfound, hsaved⟩ := GlobalState.saveAccountState_spec h.toHolds iteration
  -- The leaves that are stored are the hashes of the states of some accounts.
  have hleaf : ∀ k x, (k, x) ∈ s.accountTree.iter ↔
      k ∈ s.accountTree.data ∧ ∃ e, L k = some e ∧ e.state.hash = x := by
    intro k x
    rw [Tree.mem_iter]
    constructor
    · rintro ⟨hk, hmem, rfl⟩
      obtain ⟨e, he⟩ := Option.isSome_iff_exists.1 (h.committed.exists_of_stored k hk hmem)
      exact ⟨hmem, e, he, by rw [h.accountTree.getLeaf hk, Ledger.leaf_of_some he]⟩
    · rintro ⟨hmem, e, he, rfl⟩
      exact ⟨h.lt he, hmem, by rw [h.accountTree.getLeaf (h.lt he), Ledger.leaf_of_some he]⟩
  have hload : ∀ leaf ∈ s.accountTree.iter, ∃ acc,
      Exec.unwrap GlobalStateError.notFound ((s.saveAccountState iteration ∅).lookup leaf.2) =
        .ok acc := by
    rintro ⟨k, x⟩ hk
    obtain ⟨-, e, he, rfl⟩ := (hleaf k x).1 hk
    obtain ⟨b, f, hb, -, -⟩ := hsaved k e he
    exact ⟨(b, f.state), by rw [hb]; rfl⟩
  obtain ⟨accounts, haccounts, hmem⟩ := Exec.exists_mapM_eq_ok hload
  simp only [Exec.unwrap_eq_ok_iff] at hmem
  have hown : ∀ a acc, (a, acc) ∈ accounts → ∃ e, L a = some e ∧ e.state = acc := by
    intro a acc hacc
    obtain ⟨leaf, -, hlookup⟩ := (hmem (a, acc)).1 hacc
    exact (hfound _ a acc hlookup).2
  have hkept : ∀ a e, L a = some e → a ∈ s.accountTree.data →
      (∀ b f, L b = some f → f.state.hash = e.state.hash → b = a) → a ∈ Maps.collect accounts := by
    intro a e he hstored hdiff
    obtain ⟨b, f, hb, hf, hhash⟩ := hsaved a e he
    obtain rfl := hdiff b f hf hhash
    refine Maps.mem_collect (v := f.state) ((hmem _).2 ⟨(b, e.state.hash), ?_, hb⟩)
    exact (hleaf b _).2 ⟨hstored, e, he, rfl⟩
  refine ⟨Maps.collect accounts, by rw [GlobalState.loadAccountState, haccounts]; rfl,
    fun a acc hacc => hown a acc (Maps.mem_of_lookup_collect hacc), hkept, fun hall => ?_, fun hL => ?_⟩
  · -- Every account is the one that is saved under the hash of its state.
    have hself : ∀ a e, L a = some e → ∃ k f, k ∈ s.accountTree.data ∧ L k = some f ∧
        f.state.hash = e.state.hash ∧
        (s.saveAccountState iteration ∅).lookup e.state.hash = some (a, e.state) := by
      intro a e he
      obtain ⟨acc, hacc⟩ := Option.isSome_iff_exists.1 (AList.lookup_isSome.2 (hall a e he))
      obtain ⟨⟨k, x⟩, hk, hlookup⟩ := (hmem (a, acc)).1 (Maps.mem_of_lookup_collect hacc)
      obtain ⟨hstored, f, hf, rfl⟩ := (hleaf k x).1 hk
      obtain ⟨hhash, e', he', rfl⟩ := hfound _ a acc hlookup
      obtain rfl := Option.some.inj (he.symm.trans he')
      exact ⟨k, f, hstored, hf, hhash.symm, hhash ▸ hlookup⟩
    have hdiff : ∀ a b e f, L a = some e → L b = some f → e.state.hash = f.state.hash → a = b := by
      intro a b e f he hf hhash
      obtain ⟨-, -, -, -, -, ha⟩ := hself a e he
      obtain ⟨-, -, -, -, -, hb⟩ := hself b f hf
      rw [hhash, hb, Option.some.injEq, Prod.mk.injEq] at ha
      exact ha.1.symm
    refine ⟨fun a e he => ?_, hdiff⟩
    obtain ⟨k, f, hstored, hf, hhash, -⟩ := hself a e he
    exact hdiff k a f e hf he hhash ▸ hstored
  · exact fun a e he => hkept a e he (hL.stored a e he) fun b f hf => hL.different b a f e hf he

/-! ## The state that is loaded -/

/-- The entry with the positions recomputed from its orders. -/
def Entry.reindex (e : Entry lv) : Entry lv :=
  { e with orderPos := fun orderId => (Maps.inverse e.orders Order.orderId).lookup orderId }

/-- The entries of the accounts that are found. -/
def Ledger.restore (L : Ledger lv) (accounts : FnvHashMap ℕ AccountState) : Ledger lv :=
  fun a => if a ∈ accounts then (L a).map Entry.reindex else none

omit [FluidexCommon] in
/-- Everything but the positions is restored. -/
theorem Ledger.map_restore {α : Type} {v : Entry lv → α} (hv : ∀ e, v e.reindex = v e)
    (L : Ledger lv) (accounts : FnvHashMap ℕ AccountState) (a : ℕ) :
    (L.restore accounts a).map v = if a ∈ accounts then (L a).map v else none := by
  rw [restore]
  split
  · cases L a with
    | none => rfl
    | some e => exact congrArg some (hv e)
  · rfl

omit [FluidexCommon] in
theorem lookup_orderIdsToPos (orderStates : FnvHashMap ℕ (BTreeMap ℕ Order)) (a orderId : ℕ) :
    (GlobalState.orderIdsToPos orderStates).lookup (a, orderId) =
      (orderStates.lookup a).bind fun orders =>
        (Maps.inverse orders Order.orderId).lookup orderId :=
  Maps.lookup_collect_flatMap orderStates (fun orders : BTreeMap ℕ Order =>
    (Maps.sortedPairs orders).map fun order : ℕ × Order => (order.2.orderId, order.1)) a orderId

omit [FluidexCommon] in
/-- The accounts that are loaded have their entries, if the maps are loaded for them. -/
theorem Holds.restore (h : Holds s L) {s' : GlobalState lv}
    (haccounts : ∀ a ∈ s'.accountStates, ∃ e, L a = some e ∧ s'.accountStates.lookup a = some e.state)
    (hbalanceTrees : ∀ a, s'.balanceTrees.lookup a =
      if a ∈ s'.accountStates then s.balanceTrees.lookup a else none)
    (horderTrees : ∀ a, s'.orderTrees.lookup a =
      if a ∈ s'.accountStates then s.orderTrees.lookup a else none)
    (horderStates : ∀ a, s'.orderStates.lookup a =
      if a ∈ s'.accountStates then s.orderStates.lookup a else none)
    (hnext : ∀ a, s'.nextOrderPositions.lookup a =
      if a ∈ s'.accountStates then s.nextOrderPositions.lookup a else none)
    (hpos : s'.orderIdToPos = GlobalState.orderIdsToPos s'.orderStates) :
    Holds s' (L.restore s'.accountStates) where
  accountStates a := by
    rw [Ledger.map_restore fun _ => rfl]
    split
    · next ha =>
      obtain ⟨e, he, hacc⟩ := haccounts a ha
      rw [hacc, he, Option.map_some]
    · next ha => exact AList.lookup_eq_none.2 ha
  balanceTrees a := by rw [Ledger.map_restore fun _ => rfl, hbalanceTrees, h.balanceTrees]
  orderTrees a := by rw [Ledger.map_restore fun _ => rfl, horderTrees, h.orderTrees]
  orderStates a := by rw [Ledger.map_restore fun _ => rfl, horderStates, h.orderStates]
  nextOrderPositions a := by rw [Ledger.map_restore fun _ => rfl, hnext, h.nextOrderPositions]
  orderIdToPos a orderId := by
    rw [hpos, lookup_orderIdsToPos, horderStates, h.orderStates, Ledger.restore]
    split
    · cases L a <;> rfl
    · rfl
  lt_of_some a e he := by
    rw [Ledger.restore] at he
    split at he
    · obtain ⟨e', he', -⟩ := Option.map_eq_some_iff.1 he
      exact h.lt he'
    · cases he

/-- A state that is persisted can be loaded: what is loaded are the entries of the
    accounts that are found. -/
theorem loadPersist_spec (h : Shows s L) (hL : ∀ a e, L a = some e → e.Defaults)
    (iteration : Shuffle (ℕ × AccountState)) (s₀ : GlobalState lv) :
    ∃ s', s₀.loadPersist (s.persist iteration .empty) = .ok s' ∧ s'.accountTree = s.accountTree ∧
      Holds s' (L.restore s'.accountStates) ∧
      (∀ a e, L a = some e → a ∈ s.accountTree.data →
        (∀ b f, L b = some f → f.state.hash = e.state.hash → b = a) → a ∈ s'.accountStates) ∧
      ((∀ a e, L a = some e → a ∈ s'.accountStates) ↔ L.Findable s.accountTree) := by
  obtain ⟨accounts, haccounts, hown, hkept, hfind⟩ := loadAccountState_spec h iteration
  have hentry : ∀ a ∈ accounts, ∃ e, L a = some e ∧ accounts.lookup a = some e.state := by
    intro a ha
    obtain ⟨acc, hacc⟩ := Option.isSome_iff_exists.1 (AList.lookup_isSome.2 ha)
    obtain ⟨e, he, rfl⟩ := hown a acc hacc
    exact ⟨e, he, hacc⟩
  -- The maps are loaded for the accounts that are found.
  have hmem : ∀ {α : Type} {m : FnvHashMap ℕ α} {v : Entry lv → α},
      (∀ a, m.lookup a = (L a).map v) → ∀ a ∈ accounts, a ∈ m := by
    intro α m v hm a ha
    obtain ⟨e, he, -⟩ := hentry a ha
    rw [← AList.lookup_isSome, hm, he]
    rfl
  have hbalanceTree : ∀ a t, s.balanceTrees.lookup a = some t →
      Tree.deserialize t.serialize = t := by
    intro a t ht
    rw [h.balanceTrees, Option.map_eq_some_iff] at ht
    obtain ⟨e, he, rfl⟩ := ht
    exact Tree.deserialize_serialize (hL a e he).balanceTree
  have horderTree : ∀ a t, s.orderTrees.lookup a = some t → Tree.deserialize t.serialize = t := by
    intro a t ht
    rw [h.orderTrees, Option.map_eq_some_iff] at ht
    obtain ⟨e, he, rfl⟩ := ht
    exact Tree.deserialize_serialize (hL a e he).orderTree
  obtain ⟨balanceTrees, hbalance, hbalance'⟩ :=
    GlobalState.loadTrees_saveSerializableMap _ _ (hmem h.balanceTrees) hbalanceTree
  obtain ⟨orderTrees, horder, horder'⟩ :=
    GlobalState.loadTrees_saveSerializableMap _ _ (hmem h.orderTrees) horderTree
  obtain ⟨orderStates, hstates, hstates'⟩ :=
    GlobalState.loadTrees_saveSerializableMap id id (hmem h.orderStates) fun _ _ _ => rfl
  obtain ⟨nextPositions, hnext, hnext'⟩ :=
    GlobalState.loadTrees_saveSerializableMap id id (hmem h.nextOrderPositions) fun _ _ _ => rfl
  have htree : GlobalState.loadAccountTree (s.persist iteration .empty) = .ok s.accountTree :=
    congrArg Except.ok (Tree.deserialize_serialize h.committed.defaultNodes)
  refine ⟨⟨s.accountTree, accounts, balanceTrees, orderTrees, orderStates,
    GlobalState.orderIdsToPos orderStates, nextPositions⟩, ?_, rfl, ?_, hkept, hfind⟩
  · rw [GlobalState.loadPersist, htree]
    simp only [Exec.ok_bind, GlobalState.persist, SledDb.empty, haccounts, hbalance, horder,
      hstates, hnext]
    rfl
  · exact h.toHolds.restore hentry hbalance' horder' hstates' hnext' rfl

/-! ## Restarting from a state -/

/-- No other account has the hash of an account whose leaf is stored. -/
def GlobalState.Unambiguous (s : GlobalState lv) : Prop :=
  ∀ a b acc acc', a ∈ s.accountTree.data → s.accountStates.lookup a = some acc →
    s.accountStates.lookup b = some acc' → acc'.hash = acc.hash → b = a

/-- What is loaded is again a state with a ledger, if no account whose leaf is stored is lost. -/
theorem Shows.restored (h : Shows s L) (hL : ∀ a e, L a = some e → e.Defaults)
    (hs : s.Unambiguous) (iteration : Shuffle (ℕ × AccountState)) {s₀ : GlobalState lv}
    (hload : s₀.loadPersist (s.persist iteration .empty) = .ok s') :
    ∃ L', Shows s' L' ∧ ∀ a e, L' a = some e → e.Defaults := by
  obtain ⟨s₁, hload₁, htree, h', hkept, -⟩ := loadPersist_spec h hL iteration s₀
  obtain rfl := Except.ok.inj (hload.symm.trans hload₁)
  have hmem : ∀ a e, L a = some e → a ∈ s.accountTree.data → a ∈ s'.accountStates := by
    refine fun a e he ha => hkept a e he ha fun b f hf => ?_
    exact hs a b _ _ ha (h.lookup_accountStates he) (h.lookup_accountStates hf)
  have hrestore : ∀ a ∈ s'.accountStates, L.restore s'.accountStates a = (L a).map Entry.reindex :=
    fun a ha => if_pos ha
  refine ⟨_, ⟨h', ?_, htree ▸ h.committed.defaultNodes, fun a ha hstored => ?_⟩, fun a e he => ?_⟩
  · rw [htree]
    refine h.committed.represents.congr fun a ha => ?_
    by_cases hfound : a ∈ s'.accountStates
    · rw [Ledger.leaf, Ledger.leaf, Ledger.entry, Ledger.entry, hrestore a hfound]
      cases L a <;> rfl
    · have hlost : L.restore s'.accountStates a = none := if_neg hfound
      rw [Ledger.leaf_of_none hlost]
      cases he : L a with
      | none => exact Ledger.leaf_of_none he
      | some e =>
        -- The leaf of an account that is lost is still that of a new account.
        have hstored : a ∉ s.accountTree.data := fun hstored => hfound (hmem a e he hstored)
        rw [← h.committed.represents.getLeaf ha, Tree.getLeaf, Tree.getValue, Tree.flattenedIdx,
          Tree.levelOffset_zero, zero_add, AList.lookup_eq_none.2 hstored,
          h.committed.defaultNodes]
        rfl
  · rw [htree] at hstored
    obtain ⟨e, he⟩ := Option.isSome_iff_exists.1 (h.committed.exists_of_stored a ha hstored)
    rw [hrestore a (hmem a e he hstored), he]
    rfl
  · rw [Ledger.restore] at he
    split at he
    · obtain ⟨e, he', rfl⟩ := Option.map_eq_some_iff.1 he
      exact ⟨(hL a e he').balanceTree, (hL a e he').orderTree⟩
    · cases he

/-! ## The orders that are found -/

/-- Exactly the ids of the stored orders are known, and of the orders of an account with
    the same id, the one that is found is the last one. -/
structure GlobalState.FindsLast (s : GlobalState lv) : Prop where
  hasOrder_iff : ∀ a orderId, s.hasOrder a orderId ↔
    ∃ pos o, s.storedOrder a pos = some o ∧ o.orderId = orderId
  last : ∀ a pos o, s.storedOrder a pos = some o →
    (∀ pos' o', s.storedOrder a pos' = some o' → o'.orderId = o.orderId → pos' ≤ pos) →
    s.getAccountOrderById a o.orderId = .ok o

omit [FluidexCommon] in
/-- The positions that are recomputed are those of the last orders. -/
theorem Holds.findsLast (h : Holds s L) (hL : ∀ a e, L a = some e → e.reindex = e) :
    s.FindsLast where
  hasOrder_iff a orderId := by
    rw [h.hasOrder_iff]
    constructor
    · rintro ⟨e, pos, he, hpos⟩
      rw [← hL a e he] at hpos
      obtain ⟨⟨o, ho, hid⟩, -⟩ := Maps.greatest_of_lookup_inverse hpos
      exact ⟨pos, o, (h.storedOrder_of_some he pos).trans ho, hid⟩
    · rintro ⟨pos, o, ho, rfl⟩
      obtain ⟨e, he, ho⟩ := h.storedOrder_eq_some ho
      obtain ⟨pos', hpos'⟩ := Maps.exists_lookup_inverse Order.orderId ho
      exact ⟨e, pos', he, by rw [← hL a e he]; exact hpos'⟩
  last a pos o ho hlast := by
    obtain ⟨e, he, ho⟩ := h.storedOrder_eq_some ho
    have hpos : e.orderPos o.orderId = some pos := by
      rw [← hL a e he]
      refine Maps.lookup_inverse_eq_some_iff.2 ⟨⟨o, ho, rfl⟩, fun pos' o' ho' hid => ?_⟩
      exact hlast pos' o' ((h.storedOrder_of_some he pos').trans ho') hid
    rw [h.getAccountOrderById_eq he hpos, Entry.orderAt_of_some ho]

namespace GlobalState.FindsLast

omit [FluidexCommon]

/-- Of the orders of an account with the same id, there is a last one. -/
theorem exists_last {pos : ℕ} {o : Order} (ho : s.storedOrder a pos = some o) :
    ∃ pos' o', s.storedOrder a pos' = some o' ∧ o'.orderId = o.orderId ∧
      ∀ p q, s.storedOrder a p = some q → q.orderId = o'.orderId → p ≤ pos' := by
  simp only [storedOrder, Option.bind_eq_some_iff] at ho ⊢
  obtain ⟨orders, horders, ho⟩ := ho
  obtain ⟨pos', hpos'⟩ := Maps.exists_lookup_inverse Order.orderId ho
  obtain ⟨⟨o', ho', hid⟩, hle⟩ := Maps.greatest_of_lookup_inverse hpos'
  refine ⟨pos', o', ⟨orders, horders, ho'⟩, hid, ?_⟩
  rintro p q ⟨orders', horders', hq⟩ hid'
  obtain rfl := Option.some.inj (horders.symm.trans horders')
  exact hle p q hq (hid'.trans hid)

/-- What is found only depends on the orders that are stored. -/
theorem unique (hs : s.FindsLast) (hs' : s'.FindsLast)
    (hstored : ∀ a pos, s'.storedOrder a pos = s.storedOrder a pos) (a orderId : ℕ) :
    (s'.hasOrder a orderId ↔ s.hasOrder a orderId) ∧
      s'.getAccountOrderById a orderId = s.getAccountOrderById a orderId := by
  have hiff : s'.hasOrder a orderId ↔ s.hasOrder a orderId := by
    rw [hs.hasOrder_iff, hs'.hasOrder_iff]
    simp only [hstored]
  refine ⟨hiff, ?_⟩
  by_cases hhas : s.hasOrder a orderId
  · obtain ⟨pos, o, ho, rfl⟩ := (hs.hasOrder_iff a orderId).1 hhas
    obtain ⟨pos', o', ho', hid, hlast⟩ := exists_last ho
    rw [← hid, hs.last a pos' o' ho' hlast]
    refine hs'.last a pos' o' ((hstored a pos').trans ho') fun p q hq => hlast p q ?_
    rwa [← hstored]
  · -- An unknown order is not asked for.
    rw [getAccountOrderById, getAccountOrderById, assert, assert, Exec.assert, Exec.assert,
      if_neg hhas, if_neg (hiff.not.2 hhas)]
    rfl

end GlobalState.FindsLast

omit [FluidexCommon] in
/-- Where the recorded positions are an index of the stored orders, only the accounts matter. -/
theorem GlobalState.OrdersIndexed.findsLast (h : s.OrdersIndexed) : s.FindsLast where
  hasOrder_iff := h.hasOrder_iff
  last a pos o ho _ := by
    have hpos := (h.bijection a o.orderId pos).2 ⟨o, ho, rfl⟩
    have hhas := (h.hasOrder_iff a o.orderId).2 ⟨pos, o, ho, rfl⟩
    obtain ⟨orders, horders, ho⟩ := Option.bind_eq_some_iff.1 ho
    rw [getAccountOrderById, assert, Exec.assert_of hhas, Exec.ok_bind, hpos, unwrap,
      Exec.unwrap_some, Exec.ok_bind, getAccountOrderByPos, horders, unwrap, Exec.unwrap_some,
      Exec.ok_bind, ho]
    rfl

/-! ## What is observed -/

/-- The two states cannot be told apart. -/
structure GlobalState.Agrees (s s' : GlobalState lv) : Prop where
  root : s'.root = s.root
  accountStates : ∀ a, s'.accountStates.lookup a = s.accountStates.lookup a
  balanceLeaves : ∀ a, (s'.balanceTrees.lookup a).map Tree.getLeaf =
    (s.balanceTrees.lookup a).map Tree.getLeaf
  orderLeaves : ∀ a, (s'.orderTrees.lookup a).map Tree.getLeaf =
    (s.orderTrees.lookup a).map Tree.getLeaf
  storedOrder : ∀ a pos, s'.storedOrder a pos = s.storedOrder a pos
  nextOrderPositions : ∀ a, s'.nextOrderPositions.lookup a = s.nextOrderPositions.lookup a
  hasAccount : ∀ a, s'.hasAccount a ↔ s.hasAccount a
  getTokenBalance : ∀ a token, s'.getTokenBalance a token = s.getTokenBalance a token
  hasOrder : ∀ a orderId, s'.hasOrder a orderId ↔ s.hasOrder a orderId
  getAccountOrderById : ∀ a orderId, s'.getAccountOrderById a orderId = s.getAccountOrderById a orderId
  getNextAccountId : s'.getNextAccountId = s.getNextAccountId

/-- A state that is restored as it is. -/
structure GlobalState.Persistable (s : GlobalState lv) : Prop extends s.FindsLast where
  /-- The leaf of every account is stored. -/
  stored : ∀ a ∈ s.accountStates, a ∈ s.accountTree.data
  /-- The hashes of the states of the accounts are different. -/
  different : ∀ a b acc acc', s.accountStates.lookup a = some acc →
    s.accountStates.lookup b = some acc' → acc.hash = acc'.hash → a = b

theorem Shows.findable_iff (h : Shows s L) : L.Findable s.accountTree ↔
    (∀ a ∈ s.accountStates, a ∈ s.accountTree.data) ∧
      ∀ a b acc acc', s.accountStates.lookup a = some acc →
        s.accountStates.lookup b = some acc' → acc.hash = acc'.hash → a = b := by
  constructor
  · refine fun hL => ⟨fun a ha => ?_, fun a b acc acc' hacc hacc' hhash => ?_⟩
    · obtain ⟨e, he⟩ := Option.isSome_iff_exists.1 (h.mem_accountStates.1 ha)
      exact hL.stored a e he
    · obtain ⟨e, he, rfl⟩ := h.exists_entry hacc
      obtain ⟨f, hf, rfl⟩ := h.exists_entry hacc'
      exact hL.different a b e f he hf hhash
  · rintro ⟨hstored, hdiff⟩
    refine ⟨fun a e he => hstored a (h.mem_accountStates.2 (by rw [he]; rfl)),
      fun a b e f he hf => ?_⟩
    exact hdiff a b _ _ (h.lookup_accountStates he) (h.lookup_accountStates hf)

/-- A state holding the same entries, with the positions of their orders recomputed. -/
theorem Holds.agrees {L' : Ledger lv} (h : Holds s L) (h' : Holds s' L')
    (hL : ∀ a, L' a = (L a).map Entry.reindex) (hroot : s'.root = s.root) (hs : s.FindsLast) :
    s.Agrees s' := by
  -- Only the index of the orders is built anew; what does not look at it stays the same.
  have hmap : ∀ {α : Type} {v : Entry lv → α}, (∀ e, v e.reindex = v e) → ∀ a,
      (L' a).map v = (L a).map v := by
    intro α v hv a
    rw [hL]
    cases L a with
    | none => rfl
    | some e => exact congrArg some (hv e)
  have hentry : ∀ {α : Type} {v : Entry lv → α}, (∀ e, v e.reindex = v e) → ∀ a,
      v (L'.entry a) = v (L.entry a) := by
    intro α v hv a
    rw [Ledger.entry, hL, Ledger.entry]
    cases L a with
    | none => rfl
    | some e => exact hv e
  have hstored : ∀ a pos, s'.storedOrder a pos = s.storedOrder a pos := by
    intro a pos
    rw [GlobalState.storedOrder, h'.orderStates, hmap fun _ => rfl, ← h.orderStates,
      ← GlobalState.storedOrder]
  have hreindex : ∀ a e, L' a = some e → e.reindex = e := by
    intro a e he
    rw [hL, Option.map_eq_some_iff] at he
    obtain ⟨e, -, rfl⟩ := he
    rfl
  -- In the old state, as in the new one, an id leads to the last order that has it.
  have hfound := hs.unique (h'.findsLast hreindex) hstored
  refine ⟨hroot, fun a => ?_, fun a => ?_, fun a => ?_, hstored, fun a => ?_, fun a => ?_,
    fun a token => ?_, fun a orderId => (hfound a orderId).1, fun a orderId => (hfound a orderId).2,
    ?_⟩
  · rw [h'.accountStates, h.accountStates, hmap fun _ => rfl]
  · rw [h'.balanceTrees, h.balanceTrees, hmap fun _ => rfl]
  · rw [h'.orderTrees, h.orderTrees, hmap fun _ => rfl]
  · rw [h'.nextOrderPositions, h.nextOrderPositions, hmap fun _ => rfl]
  · have hay : (L'.entry a).state.ay = (L.entry a).state.ay :=
      hentry (v := fun e => e.state.ay) (fun _ => rfl) a
    rw [h'.hasAccount_iff, h.hasAccount_iff, hay]
  · have hbalance : (L'.entry a).balance token = (L.entry a).balance token :=
      hentry (v := fun e => e.balance token) (fun _ => rfl) a
    rw [h'.getTokenBalance_eq, h.getTokenBalance_eq, hbalance]
  · have hlen : s'.balanceTrees.keys.length = s.balanceTrees.keys.length := by
      refine Maps.length_keys_eq fun a => ?_
      rw [← AList.lookup_isSome, ← AList.lookup_isSome, h'.balanceTrees, h.balanceTrees,
        hmap fun _ => rfl]
    rw [GlobalState.getNextAccountId, hlen, ← GlobalState.getNextAccountId]

/-- What is observed of the orders decides how they are found. -/
theorem GlobalState.Agrees.findsLast (h : s.Agrees s') (hs' : s'.FindsLast) : s.FindsLast where
  hasOrder_iff a orderId := by
    rw [← h.hasOrder, hs'.hasOrder_iff]
    simp only [h.storedOrder]
  last a pos o ho hlast := by
    rw [← h.getAccountOrderById]
    refine hs'.last a pos o ((h.storedOrder a pos).trans ho) fun pos' o' ho' => hlast pos' o' ?_
    rwa [← h.storedOrder]

/-- Whatever the operations, the state can be persisted and loaded, and it is restored
    as it was exactly when it is persistable. -/
theorem restores_iff {n : Node lv} {nTx persistEveryNBlock : ℕ} {blockOffset : Option ℕ}
    (hn : Exec.Reachable Node.step (fun _ _ => True)
      (Node.new lv nTx blockOffset persistEveryNBlock) n)
    (iteration : Shuffle (ℕ × AccountState)) :
    ∃ s', (GlobalState.new lv).loadPersist (n.state.persist iteration .empty) = .ok s' ∧
      (n.state.Agrees s' ↔ n.state.Persistable) := by
  obtain ⟨L, h, hL⟩ := Node.reachable_ledger (Entry.Defaults.create lv)
    (fun _ _ _ _ _ he hch => he.change hch) hn
  obtain ⟨s', hload, htree, h', -, hfind⟩ := loadPersist_spec h hL iteration (GlobalState.new lv)
  refine ⟨s', hload, fun hag => ?_, fun hp => ?_⟩
  · have hreindex : ∀ a e, L.restore s'.accountStates a = some e → e.reindex = e := by
      intro a e he
      rw [Ledger.restore] at he
      split at he
      · obtain ⟨e, -, rfl⟩ := Option.map_eq_some_iff.1 he
        rfl
      · cases he
    -- Every account is read again, since the states agree on them.
    have hall : ∀ a e, L a = some e → a ∈ s'.accountStates := by
      intro a e he
      rw [← AList.lookup_isSome, hag.accountStates, h.lookup_accountStates he]
      rfl
    obtain ⟨hstored, hdiff⟩ := h.findable_iff.1 (hfind.1 hall)
    exact ⟨hag.findsLast (h'.findsLast hreindex), hstored, hdiff⟩
  · -- All accounts are found in the dump, each with a hash of its own.
    have hall := hfind.2 (h.findable_iff.2 ⟨hp.stored, hp.different⟩)
    refine h.agrees h' (fun a => ?_) (congrArg Tree.getRoot htree) hp.toFindsLast
    rw [Ledger.restore]
    cases he : L a with
    | none => rw [Option.map_none, ite_self]
    | some e => rw [if_pos (hall a e he)]

end Restore

attribute [local instance] FluidexCommon.sample in
/-- Two accounts with different keys and an order each are restored. -/
theorem restores_iff_authorisedOps :
    ∃ n s', Exec.run Node.step (Node.new Levels.small 2 none 9) authorisedOps = .ok n ∧
      (GlobalState.new Levels.small).loadPersist (n.state.persist .reverse .empty) = .ok s' ∧
      n.state.Agrees s' := by
  obtain ⟨n, hn⟩ := Exec.exists_eq_ok (do
    let n ← Exec.run (Exec.guarded Node.step (.explicit "not allowed")
      fun n op => op.ReusesNoSlot n.state) (Node.new Levels.small 2 none 9) authorisedOps
    assert (∀ a ∈ n.state.accountStates.keys, a ∈ n.state.accountTree.data ∧
      ∀ b ∈ n.state.accountStates.keys,
        (n.state.getAccount a).hash = (n.state.getAccount b).hash → a = b) "accounts"
    pure n) (by decide +kernel)
  simp only [Exec.bind_eq_ok_iff, Exec.assert_eq_ok_iff, Exec.pure_eq_ok_iff] at hn
  obtain ⟨n, hn, _, haccounts, rfl⟩ := hn
  obtain ⟨hreach, hrun⟩ := Exec.Reachable.init.of_guarded hn
  obtain ⟨s', hload, hiff⟩ := restores_iff (hreach.mono fun _ _ _ => trivial) .reverse
  have hmem : ∀ {a acc}, n.state.accountStates.lookup a = some acc →
      a ∈ n.state.accountStates.keys ∧ n.state.getAccount a = acc := by
    intro a acc hacc
    have ha : a ∈ n.state.accountStates := AList.lookup_isSome.1 (by rw [hacc]; rfl)
    exact ⟨AList.mem_keys.1 ha, by rw [GlobalState.getAccount, hacc, Option.getD_some]⟩
  refine ⟨n, s', hrun, hload, hiff.2 ⟨?_, fun a ha => ?_, fun a b acc acc' hacc hacc' hhash => ?_⟩⟩
  · exact (Node.ordersIndexed_of_reusesNoSlot hreach).findsLast
  · exact (haccounts a (AList.mem_keys.1 ha)).1
  · obtain ⟨ha, rfl⟩ := hmem hacc
    obtain ⟨hb, rfl⟩ := hmem hacc'
    exact (haccounts a ha).2 b hb hhash

attribute [local instance] FluidexCommon.sample in
/-- The leaf of an account that has just been created is not stored: the account is lost. -/
theorem not_agrees_createNewAccount :
    ∃ n s', Exec.run Node.step (Node.new Levels.small 2 none 9) [.createNewAccount 1] = .ok n ∧
      (GlobalState.new Levels.small).loadPersist (n.state.persist .id .empty) = .ok s' ∧
      n.state.getNextAccountId = .ok 1 ∧ s'.getNextAccountId = .ok 0 ∧ ¬n.state.Agrees s' := by
  obtain ⟨⟨n, s'⟩, hn⟩ := Exec.exists_eq_ok (do
    let n ← Exec.run Node.step (Node.new Levels.small 2 none 9) [.createNewAccount 1]
    let s' ← unwrap ((GlobalState.new Levels.small).loadPersist
      (n.state.persist .id .empty)).toOption
    let before ← unwrap n.state.getNextAccountId.toOption
    let after ← unwrap s'.getNextAccountId.toOption
    assert (before = 1 ∧ after = 0) "ids"
    pure (n, s')) (by decide +kernel)
  simp only [Exec.bind_eq_ok_iff, Exec.assert_eq_ok_iff, Exec.unwrap_eq_ok_iff,
    Exec.toOption_eq_some_iff, Exec.pure_eq_ok_iff, Prod.mk.injEq] at hn
  obtain ⟨n, hn, s', hs', before, hbefore, after, hafter, _, ⟨rfl, rfl⟩, rfl, rfl⟩ := hn
  refine ⟨n, s', hn, hs', hbefore, hafter, fun hag => ?_⟩
  have hid := hag.getNextAccountId
  rw [hbefore, hafter, Except.ok.injEq] at hid
  cases hid

end Rollup
