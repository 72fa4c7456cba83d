import Rollup.Global
import Rollup.Lib.Maps

/-!
# Persistence

`persist` and `load_persist` of `state/global.rs`, and the serialisation of the
trees. A database is a `sled` database with a named tree, i.e., a map, for each
part of the state, and the account tree under a key of its own.

* The states of the accounts are stored under their hashes, together with their
  ids. They are found again from the leaves that are stored in the account tree,
  and the rest of the state is then loaded for the accounts that were found.
* The positions of the order ids are not stored: they are recomputed from the
  orders.
* What `bincode` writes is read back. A transaction of `sled` is only aborted for
  what is missing from the database.
-/

namespace Rollup

variable [FluidexCommon] {lv : Levels}

/-! ## Trees -/

/-- A tree as it is serialised, its height being that of the type: of the default
    nodes, only the leaf is kept. -/
structure TreeWrapper (h : ℕ) where
  defaultLeafNodeValue : Fr
  data : FnvHashMap ℕ Fr

namespace Tree

variable {h : ℕ}

omit [FluidexCommon] in
/-- The nodes as they are stored, and the default leaf, from which the others follow. -/
def serialize (t : Tree h) : TreeWrapper h where
  defaultLeafNodeValue := t.defaultNodes.getD 0 0
  data := t.data

/-- The default values of the levels are computed again. -/
def deserialize (wrapper : TreeWrapper h) : Tree h :=
  { empty h wrapper.defaultLeafNodeValue with data := wrapper.data }

end Tree

/-! ## The database -/

/-- `GlobalStateError`: nothing else is returned by a database that works. -/
inductive GlobalStateError where
  | notFound

/-- The tables of a database. -/
structure SledDb (lv : Levels) where
  accountTree : Option (TreeWrapper lv.accountLevels)
  /-- hash of the state -> account id and state -/
  accountStates : FnvHashMap Fr (ℕ × AccountState)
  balanceTrees : FnvHashMap ℕ (TreeWrapper lv.balanceLevels)
  orderTrees : FnvHashMap ℕ (TreeWrapper lv.orderLevels)
  orderStates : FnvHashMap ℕ (BTreeMap ℕ Order)
  nextOrderPositions : FnvHashMap ℕ ℕ

/-- A database to which nothing has been written yet. -/
def SledDb.empty : SledDb lv := ⟨none, ∅, ∅, ∅, ∅, ∅⟩

namespace GlobalState

/-! ## Saving -/

/-- The accounts are saved in the order in which the hash map is iterated. -/
def saveAccountState (s : GlobalState lv) (iteration : Shuffle (ℕ × AccountState))
    (db : FnvHashMap Fr (ℕ × AccountState)) : FnvHashMap Fr (ℕ × AccountState) :=
  Maps.extend db ((iteration.order (Maps.pairs s.accountStates)).map fun acc => (acc.2.hash, acc))

/-- The values are serialised; the order of the keys does not matter. -/
def saveSerializableMap {α β : Type} (serialize : α → β) (db : FnvHashMap ℕ β)
    (map : FnvHashMap ℕ α) : FnvHashMap ℕ β :=
  Maps.extend db ((Maps.pairs map).map fun kv => (kv.1, serialize kv.2))

/-- Every table gets what is in the state; nothing is removed from it. -/
def persist (s : GlobalState lv) (iteration : Shuffle (ℕ × AccountState)) (db : SledDb lv) :
    SledDb lv where
  accountTree := some s.accountTree.serialize
  accountStates := s.saveAccountState iteration db.accountStates
  balanceTrees := saveSerializableMap Tree.serialize db.balanceTrees s.balanceTrees
  orderTrees := saveSerializableMap Tree.serialize db.orderTrees s.orderTrees
  orderStates := saveSerializableMap id db.orderStates s.orderStates
  nextOrderPositions := saveSerializableMap id db.nextOrderPositions s.nextOrderPositions

/-! ## Loading -/

/-- The account tree, if it has been written. -/
def loadAccountTree (db : SledDb lv) : Except GlobalStateError (Tree lv.accountLevels) := do
  let wrapper ← Exec.unwrap .notFound db.accountTree
  pure (Tree.deserialize wrapper)

/-- The ids are those that are stored with the states, not those of the leaves. -/
def loadAccountState (accountTree : Tree lv.accountLevels)
    (db : FnvHashMap Fr (ℕ × AccountState)) :
    Except GlobalStateError (FnvHashMap ℕ AccountState) := do
  let accounts ← accountTree.iter.mapM fun leaf => Exec.unwrap .notFound (db.lookup leaf.2)
  pure (Maps.collect accounts)

/-- A tree for every account that was loaded, each of which must be in the table. -/
def loadTrees {α β : Type} (deserialize : α → β) (accountStates : FnvHashMap ℕ AccountState)
    (db : FnvHashMap ℕ α) : Except GlobalStateError (FnvHashMap ℕ β) := do
  let trees ← accountStates.keys.mapM fun id => do
    let tree ← Exec.unwrap .notFound (db.lookup id)
    pure (id, deserialize tree)
  pure (Maps.collect trees)

/-- Of the orders of an account with the same id, the one at the last position counts. -/
def orderIdsToPos (orderStates : FnvHashMap ℕ (BTreeMap ℕ Order)) : FnvHashMap (ℕ × ℕ) ℕ :=
  Maps.collect ((Maps.pairs orderStates).flatMap fun account =>
    Maps.under account.1 ((Maps.sortedPairs account.2).map fun order =>
      (order.2.orderId, order.1)))

/-- Everything is replaced, or nothing if something is missing. -/
def loadPersist (s : GlobalState lv) (db : SledDb lv) : Except GlobalStateError (GlobalState lv) := do
  let accountTree ← loadAccountTree db
  let accountStates ← loadAccountState accountTree db.accountStates
  let balanceTrees ← loadTrees Tree.deserialize accountStates db.balanceTrees
  let orderTrees ← loadTrees Tree.deserialize accountStates db.orderTrees
  let orderStates ← loadTrees id accountStates db.orderStates
  let nextOrderPositions ← loadTrees id accountStates db.nextOrderPositions
  pure { s with
    accountTree := accountTree
    accountStates := accountStates
    balanceTrees := balanceTrees
    orderTrees := orderTrees
    orderStates := orderStates
    orderIdToPos := orderIdsToPos orderStates
    nextOrderPositions := nextOrderPositions }

end GlobalState

end Rollup
