import Mathlib.Data.List.Iterate
import Rollup.Lib.Merkle
import Rollup.Tree

/-!
# The sparse tree as a Merkle tree

A `Tree h` *represents* the leaves `leaf` if its nodes are those of the full
binary tree over them (`Represents`). Then its root, its leaves and its proofs
are those of that tree, and writing a leaf in range, by whatever function,
yields a tree representing the updated leaves (`Represents.setValue`,
`Represents.setValueParallel`).

Both ways of writing a leaf end in the same tree (`put`): a precomputed hash is
only used when it is the hash of the current children (`setValueApplyDiff_eq`).
What they do to the leaves in range needs no hypothesis on the other nodes
(`getLeaf_setValue`, `getLeaf_setValueParallel`): the indices out of range never
alias a leaf.
-/

namespace Rollup

/-- The leaves after a list of writes. -/
def writes (updates : List (ℕ × Fr)) (leaf : ℕ → Fr) : ℕ → Fr :=
  updates.foldl (fun leaf update => Function.update leaf update.1 update.2) leaf

@[simp] theorem writes_nil (leaf : ℕ → Fr) : writes [] leaf = leaf := rfl

/-- The first update is made first, so that a later one to the same leaf counts. -/
@[simp] theorem writes_cons (u : ℕ × Fr) (us : List (ℕ × Fr)) (leaf : ℕ → Fr) :
    writes (u :: us) leaf = writes us (Function.update leaf u.1 u.2) := rfl

namespace Tree

variable {h : ℕ} {t t' : Tree h} {leaf leaf' : ℕ → Fr}

/-! ## Stored nodes -/

@[simp] theorem levelOffset_zero : levelOffset h 0 = 0 := by simp [levelOffset]

/-- The nodes of a level are stored before those of the next one. -/
theorem levelOffset_succ {level : ℕ} (hl : level < h) :
    levelOffset h (level + 1) = levelOffset h level + 2 ^ (h - level) := by
  have h1 : 2 ^ (h - level + 1) = 2 ^ (h - level) + 2 ^ (h - level) := by rw [pow_succ, mul_two]
  have h2 : 2 ^ (h - level + 1) ≤ 2 ^ (h + 1) := Nat.pow_le_pow_right (by norm_num) (by omega)
  rw [levelOffset, levelOffset, show h - (level + 1) + 1 = h - level by omega]
  generalize 2 ^ (h + 1) = a at *
  generalize 2 ^ (h - level + 1) = b at *
  omega

/-- The levels do not overlap. -/
theorem levelOffset_add_le {level n : ℕ} (hn : level + n + 1 ≤ h) :
    levelOffset h level + 2 ^ (h - level) ≤ levelOffset h (level + n + 1) := by
  induction n with
  | zero => exact (levelOffset_succ (by omega)).ge
  | succ n ih =>
    have hsucc := levelOffset_succ (h := h) (show level + n + 1 < h by omega)
    rw [show level + (n + 1) + 1 = level + n + 1 + 1 by omega, hsucc]
    exact (ih (by omega)).trans (Nat.le_add_right _ _)

/-- Nodes of different levels are stored in different places. -/
theorem flattenedIdx_lt {level level' i j : ℕ} (hlt : level < level') (hl : level' ≤ h)
    (hi : i < 2 ^ (h - level)) : flattenedIdx h level i < flattenedIdx h level' j := by
  obtain ⟨n, rfl⟩ := Nat.exists_eq_add_of_lt hlt
  have hoff : levelOffset h level + 2 ^ (h - level) ≤ levelOffset h (level + n + 1) :=
    levelOffset_add_le hl
  simp only [flattenedIdx]
  omega

@[simp] theorem getValue_insert_self (t : Tree h) (level i : ℕ) (v : Fr) :
    (t.insert level i v).getValue level i = v := by
  simp [insert, getValue]

/-- Only the node that is stored changes. -/
theorem getValue_insert_of_ne (t : Tree h) {level level' i j : ℕ} (v : Fr)
    (hne : flattenedIdx h level' j ≠ flattenedIdx h level i) :
    (t.insert level i v).getValue level' j = t.getValue level' j := by
  simp [insert, getValue, AList.lookup_insert_ne hne]

/-- The other nodes of the level do not change. -/
theorem getValue_insert_same (t : Tree h) {level i j : ℕ} (v : Fr) (hne : j ≠ i) :
    (t.insert level i v).getValue level j = t.getValue level j :=
  t.getValue_insert_of_ne v (by simpa [flattenedIdx] using hne)

/-- Storing a node keeps the nodes in range of the other levels. -/
theorem getValue_insert_level (t : Tree h) {level level' i j : ℕ} (v : Fr) (hne : level' ≠ level)
    (hl : level ≤ h) (hl' : level' ≤ h) (hi : i < 2 ^ (h - level)) (hj : j < 2 ^ (h - level')) :
    (t.insert level i v).getValue level' j = t.getValue level' j := by
  refine t.getValue_insert_of_ne v ?_
  rcases Nat.lt_or_gt_of_ne hne with hlt | hlt
  · exact (flattenedIdx_lt hlt hl hj).ne
  · exact (flattenedIdx_lt hlt hl' hi).ne'

/-- Storing an inner node, in range or not, keeps the leaves in range. -/
theorem getLeaf_insert_succ (t : Tree h) {level i j : ℕ} (v : Fr) (hl : level < h) (hj : j < 2 ^ h) :
    (t.insert (level + 1) i v).getLeaf j = t.getLeaf j :=
  t.getValue_insert_of_ne v (flattenedIdx_lt (Nat.succ_pos level) hl (by simpa using hj)).ne

/-- The nodes of the level 0 are the leaves. -/
theorem getLeaf_insert_zero (t : Tree h) (i j : ℕ) (v : Fr) :
    (t.insert 0 i v).getLeaf j = if j = i then v else t.getLeaf j := by
  split
  · next hji => rw [hji, getLeaf, getValue_insert_self]
  · next hji => exact t.getValue_insert_same v hji

/-- The siblings of a leaf, read from the nodes that are stored or default. -/
theorem pathElements_eq (t : Tree h) (level n idx : ℕ) :
    t.pathElements level n idx = Merkle.path t.getValue level n idx := by
  induction n generalizing level idx with
  | zero => rfl
  | succ n ih => rw [pathElements, ih]; rfl

/-- A level has twice as many nodes as the next one. -/
theorem two_pow_sub {l : ℕ} (hl : l < h) : 2 ^ (h - l) = 2 * 2 ^ (h - (l + 1)) := by
  rw [← pow_succ', show h - (l + 1) + 1 = h - l by omega]

theorem div_pow_lt {i n l : ℕ} (hi : i < 2 ^ n) (hl : l ≤ n) : i / 2 ^ l < 2 ^ (n - l) := by
  refine Nat.div_lt_of_lt_mul ?_
  rwa [← pow_add, Nat.add_sub_cancel' hl]

/-- No update is lost by cutting the list in chunks. -/
theorem flatten_chunks {α : Type} {n : ℕ} (hn : 0 < n) {fuel : ℕ} {l : List α}
    (hl : l.length ≤ fuel) : (chunks n fuel l).flatten = l := by
  induction fuel generalizing l with
  | zero => rw [List.length_eq_zero_iff.1 (Nat.le_zero.1 hl)]; rfl
  | succ fuel ih =>
    cases l with
    | nil => rfl
    | cons a l =>
      have hdrop : ((a :: l).drop n).length ≤ fuel := by
        simp only [List.length_drop, List.length_cons] at *
        omega
      rw [chunks, List.flatten_cons, ih hdrop, List.take_append_drop]
      simp

/-! ## The tree of a list of leaves -/

variable [FluidexCommon]

/-- The value of a node whose children have the values `lhs` and `rhs`. -/
def hash2 (lhs rhs : Fr) : Fr := Fr.hash [lhs, rhs]

/-- The nodes of `t` are those of the full binary tree over `leaf`. -/
def Represents (t : Tree h) (leaf : ℕ → Fr) : Prop :=
  ∀ level ≤ h, ∀ j < 2 ^ (h - level), t.getValue level j = Merkle.node hash2 leaf level j

/-- Every parent is the hash of its children. -/
def IsMerkle (t : Tree h) : Prop :=
  ∀ level < h, ∀ j < 2 ^ (h - (level + 1)),
    t.getValue (level + 1) j = hash2 (t.getValue level (2 * j)) (t.getValue level (2 * j + 1))

/-- A Merkle tree represents the leaves it has. -/
theorem IsMerkle.represents (ht : t.IsMerkle) : t.Represents t.getLeaf :=
  Merkle.eq_node ht

/-- A tree that represents leaves is a Merkle tree. -/
theorem Represents.isMerkle (ht : t.Represents leaf) : t.IsMerkle := by
  intro level hl j hj
  have hpow : 2 ^ (h - level) = 2 * 2 ^ (h - (level + 1)) := two_pow_sub hl
  rw [ht _ hl j hj, ht level hl.le (2 * j) (by omega), ht level hl.le (2 * j + 1) (by omega)]
  rfl

/-- The leaves that are read are those that are represented. -/
theorem Represents.getLeaf (ht : t.Represents leaf) {j : ℕ} (hj : j < 2 ^ h) :
    t.getLeaf j = leaf j :=
  ht 0 (Nat.zero_le h) j (by simpa using hj)

/-- The root is the one of the complete tree over the leaves. -/
theorem Represents.getRoot (ht : t.Represents leaf) : t.getRoot = Merkle.node hash2 leaf h 0 :=
  ht h le_rfl 0 (by simp)

/-- Only the leaves in range matter. -/
theorem Represents.congr (ht : t.Represents leaf) (hl : ∀ j < 2 ^ h, leaf j = leaf' j) :
    t.Represents leaf' := by
  intro level hle j hj
  rw [ht level hle j hj]
  refine Merkle.node_congr fun i hi => hl i ?_
  have hlt := (Nat.div_lt_iff_lt_mul (Nat.two_pow_pos level)).1 (hi.trans_lt hj)
  rwa [← pow_add, Nat.sub_add_cancel hle] at hlt

/-- The new tree represents its default leaves. -/
theorem represents_empty (h : ℕ) (v : Fr) : (empty h v).Represents fun _ => v := by
  have hnode : ∀ level j, Merkle.node hash2 (fun _ => v) level j =
      (fun node => Fr.hash [node, node])^[level] v := by
    intro level
    induction level with
    | zero => exact fun _ => rfl
    | succ level ih =>
      intro j
      rw [Merkle.node, ih, ih, Function.iterate_succ_apply']
      rfl
  intro level hl j _
  rw [hnode, getValue, empty, AList.lookup_empty, Option.getD_none, List.getD_eq_getElem?_getD,
    List.getElem?_iterate _ _ _ _ (by omega), Option.getD_some]

/-! ## Proofs -/

/-- The path of a leaf is the one of the complete tree. -/
theorem Represents.pathElements (ht : t.Represents leaf) {j : ℕ} (hj : j < 2 ^ h) :
    (t.getProof j).pathElements = Merkle.path (Merkle.node hash2 leaf) 0 h j := by
  rw [getProof, pathElements_eq]
  exact Merkle.path_congr_value (by omega) (by simpa using hj) ht

/-- Folding a value up along the proof of the leaf `j` gives the root of the
    tree in which it is that leaf. -/
theorem Represents.fold (ht : t.Represents leaf) {j : ℕ} (hj : j < 2 ^ h) (v : Fr) :
    Merkle.fold hash2 (t.getProof j).pathElements j v =
      Merkle.node hash2 (Function.update leaf j v) h 0 := by
  rw [ht.pathElements hj, Merkle.fold_path_update leaf hj]

/-- Writing `v` along the proof of the leaf `a`, then `w` to the leaf `b`, is undone by
    folding the old leaf `b` along its proof in the new tree. -/
theorem Represents.fold_two {a b : ℕ} {v w : Fr} (ht : t.Represents leaf)
    (ht' : t'.Represents (Function.update (Function.update leaf a v) b w)) (ha : a < 2 ^ h)
    (hb : b < 2 ^ h) (hab : a ≠ b) : Merkle.fold hash2 (t.getProof a).pathElements a v =
      Merkle.fold hash2 (t'.getProof b).pathElements b (leaf b) := by
  have hold : leaf b = Function.update leaf a v b := (Function.update_of_ne hab.symm v leaf).symm
  rw [ht.fold ha, ht'.fold hb, Function.update_idem, hold, Function.update_eq_self]

/-! ## Writing a leaf -/

/-- The tree after writing a leaf, whatever its index. -/
def put (t : Tree h) (idx : ℕ) (value : Fr) : Tree h :=
  (t.insert 0 idx value).recalculateParents 0 h idx

/-- Recomputing nodes above the leaves leaves them as they are. -/
theorem getLeaf_recalculateParents (t : Tree h) {level n i j : ℕ} (hn : level + n ≤ h)
    (hj : j < 2 ^ h) : (t.recalculateParents level n i).getLeaf j = t.getLeaf j := by
  induction n generalizing t level i with
  | zero => rfl
  | succ n ih =>
    rw [recalculateParents, ih _ (by omega), recalculateParent,
      getLeaf_insert_succ _ _ (by omega) hj]

/-- Writing a leaf changes no other one. -/
theorem getLeaf_put (t : Tree h) (i : ℕ) (v : Fr) {j : ℕ} (hj : j < 2 ^ h) :
    (t.put i v).getLeaf j = if j = i then v else t.getLeaf j := by
  rw [put, getLeaf_recalculateParents _ (by omega) hj, getLeaf_insert_zero]

/-- Recomputing the ancestors of the leaf `i` on the levels above `level`, the
    nodes of the levels up to it being those over `leaf'`, and the others those
    over `leaf`, which only differs at `i`. -/
theorem recalculateParents_spec {i : ℕ} (hi : i < 2 ^ h)
    (hleaf : ∀ j, j ≠ i → leaf j = leaf' j) {n level : ℕ} (hn : level + n = h) {t : Tree h}
    (ht : ∀ l ≤ h, ∀ j < 2 ^ (h - l), t.getValue l j =
      Merkle.node hash2 (if l ≤ level then leaf' else leaf) l j) :
    (t.recalculateParents level n (i / 2 ^ level)).Represents leaf' := by
  induction n generalizing t level with
  | zero =>
    intro l hl j hj
    rw [recalculateParents, ht l hl j hj, if_pos (by omega)]
  | succ n ih =>
    have hm : i / 2 ^ (level + 1) < 2 ^ (h - (level + 1)) := div_pow_lt hi (by omega)
    have hpow : 2 ^ (h - level) = 2 * 2 ^ (h - (level + 1)) := two_pow_sub (by omega)
    rw [recalculateParents, parentIdx, Nat.div_div_eq_div_mul, ← pow_succ]
    refine ih (by omega) fun l hl j hj => ?_
    have hchild : ∀ c < 2 ^ (h - level), t.getValue level c = Merkle.node hash2 leaf' level c :=
      fun c hc => by rw [ht level (by omega) c hc, if_pos le_rfl]
    -- The recomputed node; the other nodes of its level, which are not above `i`; the other levels.
    rcases eq_or_ne l (level + 1) with rfl | hne
    · rw [if_pos le_rfl]
      rcases eq_or_ne j (i / 2 ^ (level + 1)) with rfl | hj'
      · rw [recalculateParent, getValue_insert_self, Nat.add_sub_cancel, mul_comm,
          hchild _ (by omega), hchild _ (by omega)]
        rfl
      · rw [recalculateParent, getValue_insert_same _ _ hj', ht _ hl j hj, if_neg (by omega)]
        refine Merkle.node_congr fun c hc => hleaf c ?_
        rintro rfl
        exact hj' hc.symm
    · rw [recalculateParent, getValue_insert_level _ _ hne (by omega) hl hm hj, ht l hl j hj]
      congr 1
      exact if_congr (by omega) rfl rfl

/-- Writing a leaf in range updates the represented leaves. -/
theorem Represents.put (ht : t.Represents leaf) {i : ℕ} (hi : i < 2 ^ h) (v : Fr) :
    (t.put i v).Represents (Function.update leaf i v) := by
  have hleaf : ∀ j, j ≠ i → leaf j = Function.update leaf i v j :=
    fun j hj => (Function.update_of_ne hj _ _).symm
  suffices hs : ∀ l ≤ h, ∀ j < 2 ^ (h - l), (t.insert 0 i v).getValue l j =
      Merkle.node hash2 (if l ≤ 0 then Function.update leaf i v else leaf) l j by
    simpa [Tree.put] using recalculateParents_spec hi hleaf (zero_add h) hs
  intro l hl j hj
  rcases Nat.eq_zero_or_pos l with rfl | hl0
  · rw [if_pos le_rfl, ← Tree.getLeaf, getLeaf_insert_zero, ht.getLeaf (by simpa using hj)]
    simp [Merkle.node, Function.update_apply]
  · rw [getValue_insert_level _ _ hl0.ne' (Nat.zero_le h) hl (by simpa using hi) hj,
      if_neg (by omega), ht l hl j hj]

/-- `setValue` writes the leaf, unless it already has the value. -/
theorem setValue_cases {i : ℕ} {v : Fr} (hset : t.setValue i v = .ok t') :
    (t.getLeaf i = v ∧ t' = t) ∨ (i < 2 ^ h ∧ t' = t.put i v) := by
  rw [setValue] at hset
  split at hset
  · next hv => exact .inl ⟨hv, (Except.ok.inj hset).symm⟩
  · split at hset
    · cases hset
    · next hlt => exact .inr ⟨not_le.1 hlt, (Except.ok.inj hset).symm⟩

/-- An index in range is never refused. -/
theorem exists_setValue (t : Tree h) {i : ℕ} (hi : i < 2 ^ h) (v : Fr) :
    ∃ t', t.setValue i v = .ok t' := by
  rw [setValue]
  split
  · exact ⟨t, rfl⟩
  · rw [if_neg (show ¬t.maxLeafNum ≤ i from not_le.2 hi)]
    exact ⟨_, rfl⟩

/-- After `setValue`, the leaf has its value and the others have theirs. -/
theorem getLeaf_setValue {i : ℕ} {v : Fr} (hset : t.setValue i v = .ok t') {j : ℕ}
    (hj : j < 2 ^ h) : t'.getLeaf j = if j = i then v else t.getLeaf j := by
  rcases setValue_cases hset with ⟨hv, rfl⟩ | ⟨_, rfl⟩
  · split
    · next hji => rw [hji, hv]
    · rfl
  · exact getLeaf_put t i v hj

/-- What is written is read back, whatever the index. -/
theorem getLeaf_setValue_self {i : ℕ} {v : Fr} (hset : t.setValue i v = .ok t') :
    t'.getLeaf i = v := by
  rcases setValue_cases hset with ⟨hv, rfl⟩ | ⟨hi, rfl⟩
  · exact hv
  · rw [getLeaf_put t i v hi, if_pos rfl]

/-- One leaf is replaced in what the tree represents. -/
theorem Represents.setValue (ht : t.Represents leaf) {i : ℕ} (hi : i < 2 ^ h) {v : Fr}
    (hset : t.setValue i v = .ok t') : t'.Represents (Function.update leaf i v) := by
  rcases setValue_cases hset with ⟨hv, rfl⟩ | ⟨_, rfl⟩
  · rw [← hv, ht.getLeaf hi, Function.update_eq_self]
    exact ht
  · exact ht.put hi v

/-! ## What writing a leaf stores -/

@[simp] theorem defaultNodes_recalculateParents (t : Tree h) (level n i : ℕ) :
    (t.recalculateParents level n i).defaultNodes = t.defaultNodes := by
  induction n generalizing t level i with
  | zero => rfl
  | succ n ih =>
    rw [recalculateParents, ih]
    rfl

@[simp] theorem defaultNodes_put (t : Tree h) (i : ℕ) (v : Fr) :
    (t.put i v).defaultNodes = t.defaultNodes :=
  defaultNodes_recalculateParents _ _ _ _

/-- The default values are never written. -/
theorem defaultNodes_setValue {i : ℕ} {v : Fr} (hset : t.setValue i v = .ok t') :
    t'.defaultNodes = t.defaultNodes := by
  rcases setValue_cases hset with ⟨-, rfl⟩ | ⟨-, rfl⟩
  · rfl
  · exact t.defaultNodes_put i v

/-- The inner nodes are not stored where the leaves in range are. -/
theorem mem_data_recalculateParents (t : Tree h) {level n i j : ℕ} (hn : level + n ≤ h)
    (hj : j < 2 ^ h) : j ∈ (t.recalculateParents level n i).data ↔ j ∈ t.data := by
  induction n generalizing t level i with
  | zero => rfl
  | succ n ih =>
    have hlt : j < flattenedIdx h (level + 1) (parentIdx i) := by
      simpa [flattenedIdx] using
        flattenedIdx_lt (i := j) (j := parentIdx i) level.succ_pos (by omega) (by simpa using hj)
    rw [recalculateParents, ih _ (by omega), recalculateParent, insert, AList.mem_insert]
    exact or_iff_right hlt.ne

/-- Of the leaves in range, only the one that is written is stored. -/
theorem mem_data_put (t : Tree h) (i : ℕ) (v : Fr) {j : ℕ} (hj : j < 2 ^ h) :
    j ∈ (t.put i v).data ↔ j = i ∨ j ∈ t.data := by
  rw [put, mem_data_recalculateParents _ (by omega) hj, insert, AList.mem_insert]
  simp [flattenedIdx]

/-- A leaf that is stored was stored before, or has just been written. -/
theorem mem_data_setValue {i : ℕ} {v : Fr} (hset : t.setValue i v = .ok t') {j : ℕ}
    (hj : j < 2 ^ h) (hmem : j ∈ t'.data) : j = i ∨ j ∈ t.data := by
  rcases setValue_cases hset with ⟨-, rfl⟩ | ⟨-, rfl⟩
  · exact .inr hmem
  · exact (t.mem_data_put i v hj).1 hmem

/-! ## Writing leaves by chunks -/

/-- There is one hash for each level above the leaf. -/
theorem length_prepareDiff (t : Tree h) (level n i : ℕ) (v : Fr) :
    (t.prepareDiff level n i v).length = n := by
  induction n generalizing level i v with
  | zero => rfl
  | succ n ih => simp [prepareDiff, ih]

/-- A precomputed hash is the hash of its inputs. -/
theorem result_of_mem_prepareDiff (t : Tree h) {level n i : ℕ} {v : Fr} {item : HashCacheItem}
    (hitem : item ∈ t.prepareDiff level n i v) :
    item.result = Fr.hash [item.inputs.1, item.inputs.2] := by
  induction n generalizing level i v with
  | zero => cases hitem
  | succ n ih =>
    rcases List.mem_cons.1 hitem with rfl | hitem
    · rfl
    · exact ih hitem

/-- Whether or not the precomputed hashes are used, the ancestors are recomputed. -/
theorem applyDiff_eq (t : Tree h) (level i : ℕ) (miss : Bool) {items : List HashCacheItem}
    (hitems : ∀ item ∈ items, item.result = Fr.hash [item.inputs.1, item.inputs.2]) :
    t.applyDiff level i miss items = t.recalculateParents level items.length i := by
  induction items generalizing t level i miss with
  | nil => rfl
  | cons item items ih =>
    rw [applyDiff, ih _ _ _ _ fun item hi => hitems item (List.mem_cons_of_mem _ hi),
      List.length_cons, recalculateParents]
    congr 1
    rw [recalculateParent, Nat.add_sub_cancel, parentIdx]
    congr 1
    -- The pair at this level is the children of the parent, in order.
    have hpair : (if i % 2 = 0 then (t.getValue level i, t.getValue level (i + 1))
        else (t.getValue level (i - 1), t.getValue level i)) =
        (t.getValue level (i / 2 * 2), t.getValue level (i / 2 * 2 + 1)) := by
      split
      · rw [show i / 2 * 2 = i by omega]
      · rw [show i / 2 * 2 = i - 1 by omega, show i - 1 + 1 = i by omega]
    rw [hpair]
    split
    · rfl
    · next hmiss =>
      rw [hitems item List.mem_cons_self]
      simp_all

/-- Hashes computed in another tree do no harm: those that do not hold are not used. -/
theorem setValueApplyDiff_eq (t s : Tree h) (i : ℕ) (v : Fr) :
    t.setValueApplyDiff i v (s.setValuePrepareDiff i v) = t.put i v := by
  rw [setValuePrepareDiff, setValueApplyDiff,
    applyDiff_eq _ _ _ _ fun _ hi => s.result_of_mem_prepareDiff hi, length_prepareDiff, put]

/-- The hashes computed in advance change nothing: the leaves are written one after the other. -/
theorem applyChunk_eq (t : Tree h) (chunk : List (ℕ × Fr)) :
    t.applyChunk chunk = chunk.foldl (fun t update => t.put update.1 update.2) t := by
  suffices H : ∀ s : Tree h, (chunk.zip (chunk.map fun update =>
      t.setValuePrepareDiff update.1 update.2)).foldl
        (fun t p => t.setValueApplyDiff p.1.1 p.1.2 p.2) s =
      chunk.foldl (fun t update => t.put update.1 update.2) s from H t
  intro s
  induction chunk generalizing s with
  | nil => rfl
  | cons update chunk ih => simp [setValueApplyDiff_eq, ih]

/-- Cut in chunks or not, the leaves are written one by one. -/
theorem setValueParallel_eq (t : Tree h) (updates : List (ℕ × Fr)) {parallel : ℕ}
    (hp : parallel ≠ 1) :
    t.setValueParallel updates parallel =
      .ok (updates.foldl (fun t update => t.put update.1 update.2) t) := by
  have hpos : 0 < if parallel = 0 then 8 else parallel := by split <;> omega
  have hne : ¬(if parallel = 0 then 8 else parallel) = 1 := by split <;> omega
  rw [setValueParallel]
  simp only [if_neg hne]
  congr 1
  have hfold : ∀ (l : List (List (ℕ × Fr))) (t : Tree h), l.foldl applyChunk t =
      l.flatten.foldl (fun t update => t.put update.1 update.2) t := by
    intro l
    induction l with
    | nil => exact fun _ => rfl
    | cons chunk l ih => intro t; rw [List.foldl_cons, ih, applyChunk_eq]; simp
  rw [hfold, flatten_chunks hpos le_rfl]

/-- What writing leaves one by one stores. -/
theorem stored_foldl_put (updates : List (ℕ × Fr)) (t : Tree h) :
    (updates.foldl (fun t u => t.put u.1 u.2) t).defaultNodes = t.defaultNodes ∧
      ∀ j < 2 ^ h, j ∈ (updates.foldl (fun t u => t.put u.1 u.2) t).data →
        j ∈ updates.map Prod.fst ∨ j ∈ t.data := by
  induction updates generalizing t with
  | nil => exact ⟨rfl, fun _ _ hmem => .inr hmem⟩
  | cons u us ih =>
    obtain ⟨hdef, hmem⟩ := ih (t.put u.1 u.2)
    refine ⟨hdef.trans (t.defaultNodes_put u.1 u.2), fun j hj hstored => ?_⟩
    rw [List.map_cons, List.mem_cons, or_assoc, or_left_comm, ← t.mem_data_put u.1 u.2 hj]
    exact hmem j hj hstored

/-- The leaves in range after a parallel update, out of range or not. -/
theorem getLeaf_setValueParallel {updates : List (ℕ × Fr)} {parallel : ℕ}
    (hset : t.setValueParallel updates parallel = .ok t') {j : ℕ} (hj : j < 2 ^ h) :
    t'.getLeaf j = writes updates t.getLeaf j := by
  -- Only the value at `j` matters for the value at `j`.
  have hstep : ∀ (us : List (ℕ × Fr)) (f g : ℕ → Fr), f j = g j →
      writes us f j = writes us g j := by
    intro us
    induction us with
    | nil => exact fun _ _ hfg => hfg
    | cons u us ih =>
      intro f g hfg
      exact ih _ _ (by simp only [Function.update_apply, hfg])
  rcases eq_or_ne parallel 1 with rfl | hp
  · -- One update after the other, each of them checked.
    simp only [setValueParallel, one_ne_zero, if_false, if_true] at hset
    induction updates generalizing t with
    | nil =>
      simp only [List.foldlM_nil, Exec.pure_eq_ok_iff] at hset
      rw [hset, writes_nil]
    | cons u us ih =>
      simp only [List.foldlM_cons, Exec.bind_eq_ok_iff] at hset
      obtain ⟨s, hs, hset⟩ := hset
      rw [ih hset, writes_cons]
      refine hstep us _ _ ?_
      rw [getLeaf_setValue hs hj, Function.update_apply]
  · -- By chunks, which write the same.
    rw [setValueParallel_eq t updates hp, Except.ok.injEq] at hset
    subst hset
    induction updates generalizing t with
    | nil => rfl
    | cons u us ih =>
      rw [List.foldl_cons, ih, writes_cons]
      refine hstep us _ _ ?_
      rw [getLeaf_put t _ _ hj, Function.update_apply]

/-- A parallel update in range updates the represented leaves, in the order of the list. -/
theorem Represents.setValueParallel (ht : t.Represents leaf) {updates : List (ℕ × Fr)}
    (hu : ∀ u ∈ updates, u.1 < 2 ^ h) {parallel : ℕ}
    (hset : t.setValueParallel updates parallel = .ok t') :
    t'.Represents (writes updates leaf) := by
  rcases eq_or_ne parallel 1 with rfl | hp
  · simp only [Tree.setValueParallel, one_ne_zero, if_false, if_true] at hset
    induction updates generalizing t leaf with
    | nil =>
      simp only [List.foldlM_nil, Exec.pure_eq_ok_iff] at hset
      exact hset ▸ ht
    | cons u us ih =>
      simp only [List.foldlM_cons, Exec.bind_eq_ok_iff] at hset
      obtain ⟨s, hs, hset⟩ := hset
      exact ih (ht.setValue (hu u List.mem_cons_self) hs)
        (fun u hu' => hu u (List.mem_cons_of_mem _ hu')) hset
  · rw [setValueParallel_eq t updates hp, Except.ok.injEq] at hset
    subst hset
    induction updates generalizing t leaf with
    | nil => exact ht
    | cons u us ih =>
      exact ih (ht.put (hu u List.mem_cons_self) u.2) fun u hu' => hu u (List.mem_cons_of_mem _ hu')

end Tree

end Rollup
