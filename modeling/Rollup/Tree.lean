import Rollup.Basic

/-!
# The sparse Merkle tree

`types/merkle_tree.rs`. Only the nodes that have been written are stored, in one
map for all the levels: the node `idx` of the level `level` is stored at
`levelOffset level + idx`, the leaves (level `0`) first and the root last. A
node that is not stored has the default value of its level.

A leaf is written by `setValue`, which recomputes the nodes above it, or by
`setValueParallel`, which takes a list of updates by chunks: it first computes
the hashes above every leaf of the chunk as if it were the only one to change
(`setValuePrepareDiff`), then writes the leaves one by one, using a precomputed
hash as long as its inputs are the current ones (`setValueApplyDiff`).

An index out of range is only noticed by `setValue`, and so by the functions that write
many leaves one by one, `fillWithLeavesVec` and `fillWithLeavesMap`.
-/

namespace Rollup

variable [FluidexCommon]

/-- A sparse Merkle tree of height `h`. -/
structure Tree (h : ℕ) where
  /-- The default values of the levels. -/
  defaultNodes : List Fr
  /-- The stored nodes. -/
  data : FnvHashMap ℕ Fr

/-- A leaf with its authentication path. -/
structure MerkleProof where
  root : Fr
  leaf : Fr
  pathElements : List Fr

/-- A precomputed hash. -/
structure HashCacheItem where
  inputs : Fr × Fr
  result : Fr

namespace Tree

variable {h : ℕ}

/-- The tree without stored nodes, over leaves with the default value `leaf`. -/
def empty (h : ℕ) (leaf : Fr) : Tree h where
  defaultNodes := List.iterate (fun node => Fr.hash [node, node]) leaf (h + 1)
  data := ∅

/-- `Tree::new`: the number of leaves must be a `u32`. -/
def new (h : ℕ) (leaf : Fr) : Except Panic (Tree h) := do
  Exec.assert (.explicit "tree depth error, overflow") (2 ^ h < 2 ^ 32)
  pure (empty h leaf)

theorem new_eq (hh : h < 32) (leaf : Fr) : new h leaf = .ok (empty h leaf) :=
  Exec.assert_bind_eq_ok_iff.2 ⟨Nat.pow_lt_pow_right one_lt_two hh, rfl⟩

/-- The number of leaves. -/
def maxLeafNum (_ : Tree h) : ℕ := 2 ^ h

/-- The other child of the same parent. -/
def siblingIdx (n : ℕ) : ℕ := if n % 2 = 1 then n - 1 else n + 1

/-- The index, one level above, of the parent. -/
def parentIdx (n : ℕ) : ℕ := n / 2

/-- Where the nodes of a level begin: all those below come first. -/
def levelOffset (h level : ℕ) : ℕ := 2 ^ (h + 1) - 2 ^ (h - level + 1)

/-- Where the node `idx` of a level is stored. -/
def flattenedIdx (h level idx : ℕ) : ℕ := levelOffset h level + idx

/-- The value of a node. -/
def getValue (t : Tree h) (level idx : ℕ) : Fr :=
  (t.data.lookup (flattenedIdx h level idx)).getD (t.defaultNodes.getD level 0)

/-- A leaf that has not been written has the default value. -/
def getLeaf (t : Tree h) (idx : ℕ) : Fr := t.getValue 0 idx

/-- The only node of the last level. -/
def getRoot (t : Tree h) : Fr := t.getValue h 0

/-- Storing the value of a node. -/
def insert (t : Tree h) (level idx : ℕ) (value : Fr) : Tree h :=
  { t with data := t.data.insert (flattenedIdx h level idx) value }

/-! ## Writing a leaf -/

/-- Storing the hash of the two children of a node. -/
def recalculateParent (t : Tree h) (level idx : ℕ) : Tree h :=
  t.insert level idx
    (Fr.hash [t.getValue (level - 1) (idx * 2), t.getValue (level - 1) (idx * 2 + 1)])

/-- The loop of `setValue`: recomputing the ancestors of `idx` on the `n` levels above `level`. -/
def recalculateParents (t : Tree h) (level : ℕ) : ℕ → ℕ → Tree h
  | 0, _ => t
  | n + 1, idx =>
    (t.recalculateParent (level + 1) (parentIdx idx)).recalculateParents (level + 1) n (parentIdx idx)

/-- `Tree::set_value` -/
def setValue (t : Tree h) (idx : ℕ) (value : Fr) : Except Panic (Tree h) :=
  if t.getLeaf idx = value then .ok t
  else if t.maxLeafNum ≤ idx then .error (.explicit s!"invalid tree idx {idx}")
  else .ok ((t.insert 0 idx value).recalculateParents 0 h idx)

/-- The hashes of the ancestors of `idx` on the `n` levels above `level`, were its value `value`. -/
def prepareDiff (t : Tree h) : (level n : ℕ) → ℕ → Fr → List HashCacheItem
  | _, 0, _, _ => []
  | level, n + 1, idx, value =>
    let pair :=
      if idx % 2 = 0 then (value, t.getValue level (idx + 1))
      else (t.getValue level (idx - 1), value)
    let result := Fr.hash [pair.1, pair.2]
    ⟨pair, result⟩ :: t.prepareDiff (level + 1) n (parentIdx idx) result

/-- The hashes above a leaf, for a value it does not have yet. -/
def setValuePrepareDiff (t : Tree h) (idx : ℕ) (value : Fr) : List HashCacheItem :=
  t.prepareDiff 0 h idx value

/-- The loop of `setValueApplyDiff`, over the precomputed hashes of the levels above `level`. -/
def applyDiff (t : Tree h) (level idx : ℕ) (cacheMiss : Bool) : List HashCacheItem → Tree h
  | [] => t
  | item :: precalculated =>
    let pair :=
      if idx % 2 = 0 then (t.getValue level idx, t.getValue level (idx + 1))
      else (t.getValue level (idx - 1), t.getValue level idx)
    -- Once a hash cannot be used, the ones above it cannot be either.
    let cacheMiss := cacheMiss || decide (item.inputs ≠ pair)
    let value := if cacheMiss then Fr.hash [pair.1, pair.2] else item.result
    (t.insert (level + 1) (parentIdx idx) value).applyDiff (level + 1) (parentIdx idx) cacheMiss
      precalculated

/-- Writing a leaf with the hashes computed for it before, as long as they still hold. -/
def setValueApplyDiff (t : Tree h) (idx : ℕ) (value : Fr) (precalculated : List HashCacheItem) :
    Tree h :=
  (t.insert 0 idx value).applyDiff 0 idx false precalculated

/-- The updates of a chunk, the hashes being computed before any of them is applied. -/
def applyChunk (t : Tree h) (chunk : List (ℕ × Fr)) : Tree h :=
  let diffs := chunk.map fun update => t.setValuePrepareDiff update.1 update.2
  (chunk.zip diffs).foldl (fun t p => t.setValueApplyDiff p.1.1 p.1.2 p.2) t

/-- A list cut in chunks of `n` elements, the last one possibly shorter; `fuel` bounds their number. -/
def chunks {α : Type} (n : ℕ) : (fuel : ℕ) → List α → List (List α)
  | 0, _ => []
  | _ + 1, [] => []
  | fuel + 1, l => l.take n :: chunks n fuel (l.drop n)

/-- `Tree::set_value_parallel` -/
def setValueParallel (t : Tree h) (updates : List (ℕ × Fr)) (parallel : ℕ) :
    Except Panic (Tree h) :=
  let parallel := if parallel = 0 then 8 else parallel
  if parallel = 1 then updates.foldlM (fun t update => t.setValue update.1 update.2) t
  else .ok ((chunks parallel updates.length updates).foldl applyChunk t)

/-- `Tree::fill_with_leaves_vec` -/
def fillWithLeavesVec (t : Tree h) (leaves : List Fr) : Except Panic (Tree h) := do
  Exec.assert (.explicit s!"invalid leaves size {leaves.length}") (leaves.length = t.maxLeafNum)
  leaves.zipIdx.foldlM (fun t item => t.setValue item.2 item.1) t

/-- `Tree::fill_with_leaves_map`: the order of the leaves is that of the iteration of the map. -/
def fillWithLeavesMap (t : Tree h) (iteration : Shuffle ((_ : ℕ) × Fr)) (leaves : FnvHashMap ℕ Fr) :
    Except Panic (Tree h) :=
  (iteration.order leaves.entries).foldlM (fun t leaf => t.setValue leaf.1 leaf.2) t

/-! ## Reading -/

/-- The siblings of `idx` and of its ancestors on `n` levels, from `level` on. -/
def pathElements (t : Tree h) : (level n : ℕ) → ℕ → List Fr
  | _, 0, _ => []
  | level, n + 1, idx =>
    t.getValue level (siblingIdx idx) :: t.pathElements (level + 1) n (parentIdx idx)

/-- `Tree::get_proof` -/
def getProof (t : Tree h) (index : ℕ) : MerkleProof where
  root := t.getRoot
  leaf := t.getLeaf index
  pathElements := t.pathElements 0 h index

/-- `Tree::iter`: the leaves that are stored. -/
def iter (t : Tree h) : List (ℕ × Fr) :=
  (t.data.entries.filter fun node => node.1 < t.maxLeafNum).map fun node => (node.1, node.2)

end Tree

end Rollup
