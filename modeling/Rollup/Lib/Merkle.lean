import Mathlib.Algebra.Order.Ring.Nat
import Mathlib.Logic.Function.Basic
import Mathlib.Tactic.Ring

/-!
# Merkle trees

The full binary tree over the leaves `leaf 0, leaf 1, …`, under a node function
`f`: the node `j` of the level `n` is computed from the `2 ^ n` leaves below it
(`node`), so a tree of height `h` has the root `node f leaf h 0`. An
*authentication path* lists the siblings of the ancestors of a node (`path`),
and folding a value up along it (`fold`) gives the node the path ends below.

* `fold_path`: folding a node along its path gives its ancestor;
* `path_congr`: the path of a leaf does not depend on that leaf;
* `fold_path_update`: so folding a new value along the old path gives the root
  of the updated tree;
* `eq_of_fold_eq`: two values folded to the same node along a path are equal, unless `f`
  has a collision among what they are folded through;
* `eq_node`: any valuation of the nodes in which every parent is computed from
  its children is the tree over its leaves;
* `eq_of_fold_eq_root`: what is folded to the root of such a valuation, along whatever path, is
  the node, unless `f` has a collision among the children and what is folded;
* `eq_of_root_eq`: two such valuations with the same root are the same, unless `f` has a
  collision among the children in them (`children`).
-/

namespace Merkle

variable {α : Type*} (f : α → α → α)

/-- The node `j` of the level `n` of the tree over the leaves `leaf`. -/
def node (leaf : ℕ → α) : ℕ → ℕ → α
  | 0, j => leaf j
  | n + 1, j => f (node leaf n (2 * j)) (node leaf n (2 * j + 1))

/-- The index of the other child of the parent of `j`. -/
def sibling (j : ℕ) : ℕ := if j % 2 = 1 then j - 1 else j + 1

/-- The siblings of `j` and of its ancestors, over `n` levels from the level `k` on. -/
def path (value : ℕ → ℕ → α) : (k n j : ℕ) → List α
  | _, 0, _ => []
  | k, n + 1, j => value k (sibling j) :: path value (k + 1) n (j / 2)

/-- The value reached by folding `v`, at index `j`, up along a path. -/
def fold : List α → ℕ → α → α
  | [], _, v => v
  | p :: ps, j, v => fold ps (j / 2) (if j % 2 = 1 then f p v else f v p)

/-- The pairs that `f` is applied to when `v`, at index `j`, is folded up along a path. -/
def pairs : List α → ℕ → α → List (α × α)
  | [], _, _ => []
  | p :: ps, j, v =>
    let pair := if j % 2 = 1 then (p, v) else (v, p)
    pair :: pairs ps (j / 2) (f pair.1 pair.2)

variable {f} {leaf leaf' : ℕ → α}

/-! ## Indices -/

theorem div_two_div_pow (j n : ℕ) : j / 2 / 2 ^ n = j / 2 ^ (n + 1) := by
  rw [Nat.div_div_eq_div_mul, pow_succ']

theorem div_two_lt {j n : ℕ} (hj : j < 2 ^ (n + 1)) : j / 2 < 2 ^ n :=
  Nat.div_lt_of_lt_mul (by rwa [pow_succ'] at hj)

theorem sibling_lt {j n : ℕ} (hj : j < 2 ^ (n + 1)) : sibling j < 2 ^ (n + 1) := by
  rw [pow_succ'] at *
  rw [sibling]
  split <;> omega

/-- A parent is computed from a child and its sibling, in the order of their indices. -/
theorem parent_eq (value : ℕ → α) (j : ℕ) :
    f (value (2 * (j / 2))) (value (2 * (j / 2) + 1)) =
      if j % 2 = 1 then f (value (sibling j)) (value j) else f (value j) (value (sibling j)) := by
  rw [sibling]
  split
  · rw [show 2 * (j / 2) = j - 1 by omega, show j - 1 + 1 = j by omega]
  · rw [show 2 * (j / 2) = j by omega]

/-! ## Nodes -/

/-- A node only depends on the leaves below it. -/
theorem node_congr {n j : ℕ} (h : ∀ i, i / 2 ^ n = j → leaf i = leaf' i) :
    node f leaf n j = node f leaf' n j := by
  induction n generalizing j with
  | zero => exact h j (by simp)
  | succ n ih =>
    have hdiv : ∀ i, i / 2 ^ (n + 1) = i / 2 ^ n / 2 := fun i => by
      rw [Nat.div_div_eq_div_mul, pow_succ]
    rw [node, node, ih fun i hi => h i (by rw [hdiv, hi]; omega),
      ih fun i hi => h i (by rw [hdiv, hi]; omega)]

/-- A valuation of the nodes of a tree of height `h` in which every parent is
    computed from its children is the tree over its leaves. -/
theorem eq_node {value : ℕ → ℕ → α} {h : ℕ}
    (hv : ∀ k < h, ∀ j < 2 ^ (h - (k + 1)),
      value (k + 1) j = f (value k (2 * j)) (value k (2 * j + 1))) :
    ∀ k ≤ h, ∀ j < 2 ^ (h - k), value k j = node f (value 0) k j := by
  intro k
  induction k with
  | zero => exact fun _ _ _ => rfl
  | succ k ih =>
    intro hk j hj
    have hpow : 2 ^ (h - k) = 2 * 2 ^ (h - (k + 1)) := by
      rw [← pow_succ', show h - (k + 1) + 1 = h - k by omega]
    rw [hv k hk j hj, node, ih (by omega) (2 * j) (by omega), ih (by omega) (2 * j + 1) (by omega)]

/-! ## Paths -/

/-- Folding a node along its path gives its ancestor. -/
theorem fold_path (leaf : ℕ → α) (k n j : ℕ) :
    fold f (path (node f leaf) k n j) j (node f leaf k j) = node f leaf (k + n) (j / 2 ^ n) := by
  induction n generalizing k j with
  | zero => simp [path, fold]
  | succ n ih =>
    have hup : (if j % 2 = 1 then f (node f leaf k (sibling j)) (node f leaf k j)
        else f (node f leaf k j) (node f leaf k (sibling j))) = node f leaf (k + 1) (j / 2) := by
      rw [node, parent_eq (f := f)]
    rw [path, fold, hup, ih, div_two_div_pow, show k + 1 + n = k + (n + 1) by ring]

/-- Folding a leaf along its path in a tree of height `h` gives the root. -/
theorem fold_path_root (leaf : ℕ → α) {h j : ℕ} (hj : j < 2 ^ h) :
    fold f (path (node f leaf) 0 h j) j (leaf j) = node f leaf h 0 := by
  simpa [node, Nat.div_eq_of_lt hj] using fold_path (f := f) leaf 0 h j

/-- Paths over valuations agreeing on the siblings are equal. -/
theorem path_congr_value {value value' : ℕ → ℕ → α} {h : ℕ} {k n j : ℕ} (hkn : k + n ≤ h)
    (hj : j < 2 ^ (h - k)) (hv : ∀ l ≤ h, ∀ i < 2 ^ (h - l), value l i = value' l i) :
    path value k n j = path value' k n j := by
  induction n generalizing k j with
  | zero => rfl
  | succ n ih =>
    rw [show h - k = h - (k + 1) + 1 by omega] at hj
    rw [path, path, ih (by omega) (div_two_lt hj), hv k (by omega) _ ?_]
    rw [show h - k = h - (k + 1) + 1 by omega]
    exact sibling_lt hj

/-- The leaves below the sibling of an ancestor of `j` are not `j`. -/
theorem ne_of_div_eq_sibling {i j k : ℕ} (h : i / 2 ^ k = sibling (j / 2 ^ k)) : i ≠ j := by
  rintro rfl
  rw [sibling] at h
  split at h <;> omega

/-- The path of the leaf `j` does not depend on it. -/
theorem path_congr {h j : ℕ} (hj : j < 2 ^ h) (hl : ∀ i < 2 ^ h, i ≠ j → leaf i = leaf' i) :
    path (node f leaf) 0 h j = path (node f leaf') 0 h j := by
  suffices H : ∀ n k, k + n = h →
      path (node f leaf) k n (j / 2 ^ k) = path (node f leaf') k n (j / 2 ^ k) by
    simpa using H h 0 (by simp)
  intro n
  induction n with
  | zero => exact fun _ _ => rfl
  | succ n ih =>
    intro k hk
    rw [path, path, Nat.div_div_eq_div_mul, ← pow_succ, ih (k + 1) (by omega)]
    congr 1
    -- The leaves below the sibling are in range, and none of them is `j`.
    refine node_congr fun i hi => hl i ?_ (ne_of_div_eq_sibling hi)
    have hs : i / 2 ^ k < 2 ^ (n + 1) := by
      rw [hi]
      refine sibling_lt (Nat.div_lt_of_lt_mul ?_)
      rwa [← pow_add, hk]
    have hlt := (Nat.div_lt_iff_lt_mul (Nat.two_pow_pos k)).1 hs
    rwa [← pow_add, show n + 1 + k = h by omega] at hlt

/-- Folding a new value along the path of the leaf `j` gives the root of the
    tree in which it replaces that leaf. -/
theorem fold_path_update (leaf : ℕ → α) {h j : ℕ} (hj : j < 2 ^ h) (v : α) :
    fold f (path (node f leaf) 0 h j) j v = node f (Function.update leaf j v) h 0 := by
  have hpath : path (node f leaf) 0 h j = path (node f (Function.update leaf j v)) 0 h j :=
    path_congr hj fun i _ hij => (Function.update_of_ne hij _ _).symm
  rw [hpath]
  simpa using fold_path_root (f := f) (Function.update leaf j v) hj

/-- Folding up along a path is injective if `f` is, on the pairs it is applied to. -/
theorem eq_of_fold_eq {ps : List α} {j : ℕ} {v w : α}
    (hf : ∀ a ∈ pairs f ps j v, ∀ b ∈ pairs f ps j w, f a.1 a.2 = f b.1 b.2 → a = b)
    (h : fold f ps j v = fold f ps j w) : v = w := by
  induction ps generalizing j v w with
  | nil => exact h
  | cons p ps ih =>
    simp only [pairs, List.forall_mem_cons] at hf
    have hup : ∀ x : α, (if j % 2 = 1 then f p x else f x p) =
        f (if j % 2 = 1 then (p, x) else (x, p)).1 (if j % 2 = 1 then (p, x) else (x, p)).2 := by
      intro x
      split <;> rfl
    rw [fold, fold, hup, hup] at h
    -- the values above are the same, so the pairs they come from are
    have hparent := ih (fun a ha b hb => (hf.2 a ha).2 b hb) h
    have hpair := hf.1.1 hparent
    split at hpair
    · exact (Prod.mk.inj hpair).2
    · exact (Prod.mk.inj hpair).1

/-! ## Roots -/

/-- The pairs of children in a tree of height `h`. -/
def children (value : ℕ → ℕ → α) (h : ℕ) : List (α × α) :=
  (List.range h).flatMap fun k => (List.range (2 ^ (h - (k + 1)))).map fun j =>
    (value k (2 * j), value k (2 * j + 1))

theorem mem_children (value : ℕ → ℕ → α) {h k j : ℕ} (hk : k < h) (hj : j < 2 ^ (h - (k + 1))) :
    (value k (2 * j), value k (2 * j + 1)) ∈ children value h :=
  List.mem_flatMap.2 ⟨k, List.mem_range.2 hk, List.mem_map.2 ⟨j, List.mem_range.2 hj, rfl⟩⟩

/-- The root determines the nodes if `f` is injective on the pairs of children. -/
theorem eq_of_root_eq {value value' : ℕ → ℕ → α} {h : ℕ}
    (hv : ∀ k < h, ∀ j < 2 ^ (h - (k + 1)),
      value (k + 1) j = f (value k (2 * j)) (value k (2 * j + 1)))
    (hv' : ∀ k < h, ∀ j < 2 ^ (h - (k + 1)),
      value' (k + 1) j = f (value' k (2 * j)) (value' k (2 * j + 1)))
    (hf : ∀ a ∈ children value h, ∀ b ∈ children value' h, f a.1 a.2 = f b.1 b.2 → a = b)
    (hroot : value h 0 = value' h 0) : ∀ k ≤ h, ∀ j < 2 ^ (h - k), value k j = value' k j := by
  -- from the root downwards
  intro k hk
  induction hk using Nat.decreasingInduction with
  | self =>
    intro j hj
    rw [Nat.sub_self, pow_zero, Nat.lt_one_iff] at hj
    rw [hj, hroot]
  | of_succ k hk ih =>
    intro j hj
    have hpow : 2 ^ (h - k) = 2 * 2 ^ (h - (k + 1)) := by
      rw [← pow_succ', show h - (k + 1) + 1 = h - k by omega]
    have hparent : j / 2 < 2 ^ (h - (k + 1)) := by omega
    -- the parents are the same, so the pairs of their children are
    have hpair := hf _ (mem_children value hk hparent) _ (mem_children value' hk hparent) <| by
      rw [← hv k hk _ hparent, ← hv' k hk _ hparent]
      exact ih _ hparent
    obtain ⟨hleft, hright⟩ := Prod.mk.inj hpair
    obtain hj' | hj' : j = 2 * (j / 2) ∨ j = 2 * (j / 2) + 1 := by omega
    · rwa [hj']
    · rwa [hj']

/-- Whatever the path, what is folded to a root is the node of the tree, and the path is its path,
    if `f` is injective on what is folded and the pairs of children. -/
theorem eq_of_fold_eq_root {value : ℕ → ℕ → α} {h : ℕ}
    (hv : ∀ k < h, ∀ j < 2 ^ (h - (k + 1)),
      value (k + 1) j = f (value k (2 * j)) (value k (2 * j + 1)))
    {ps : List α} {k j : ℕ} {v : α} (hk : k + ps.length = h) (hj : j < 2 ^ (h - k))
    (hf : ∀ a ∈ pairs f ps j v, ∀ b ∈ children value h, f a.1 a.2 = f b.1 b.2 → a = b)
    (hroot : fold f ps j v = value h 0) : v = value k j ∧ ps = path value k ps.length j := by
  induction ps generalizing k j v with
  | nil =>
    obtain rfl : k = h := hk
    rw [Nat.sub_self, pow_zero, Nat.lt_one_iff] at hj
    rw [hj]
    exact ⟨hroot, rfl⟩
  | cons p ps ih =>
    rw [List.length_cons] at hk
    have hkh : k < h := by omega
    have hpow : 2 ^ (h - k) = 2 * 2 ^ (h - (k + 1)) := by
      rw [← pow_succ', show h - (k + 1) + 1 = h - k by omega]
    have hparent : j / 2 < 2 ^ (h - (k + 1)) := by omega
    simp only [pairs, List.forall_mem_cons] at hf
    -- what is folded above is the parent, and its pair that of the children
    have hup : (if j % 2 = 1 then f p v else f v p) =
        f (if j % 2 = 1 then (p, v) else (v, p)).1 (if j % 2 = 1 then (p, v) else (v, p)).2 := by
      split <;> rfl
    rw [fold, hup] at hroot
    obtain ⟨hnode, hpath⟩ := ih (by omega) hparent hf.2 hroot
    rw [hv k hkh _ hparent] at hnode
    have hpair := hf.1 _ (mem_children value hkh hparent) hnode
    rw [List.length_cons, path, ← hpath, sibling]
    split at hpair
    · next hodd =>
      obtain ⟨hleft, hright⟩ := Prod.mk.inj hpair
      rw [if_pos hodd, hright, hleft, show 2 * (j / 2) + 1 = j by omega,
        show 2 * (j / 2) = j - 1 by omega]
      exact ⟨rfl, rfl⟩
    · next heven =>
      obtain ⟨hleft, hright⟩ := Prod.mk.inj hpair
      rw [if_neg heven, hright, hleft, show 2 * (j / 2) = j by omega]
      exact ⟨rfl, rfl⟩

end Merkle
