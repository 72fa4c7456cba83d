import Rollup.Lib.Maps
import Rollup.Tree.Refine

/-!
# Writing two leaves

The leaves of a tree can be written in either order, whatever its other nodes are: writing a
leaf stores the nodes of its path, each of them the hash of its children in the new tree
(`lookup_put_path`), and keeps all the others (`lookup_put_of_ne`). So the tree need not
represent anything.
-/

namespace Rollup

namespace Tree

variable [FluidexCommon] {h : ℕ} {t : Tree h} {i k : ℕ} {v w : Fr}

/-- The trees only differ by the order in which their nodes are stored. -/
structure Same (t t' : Tree h) : Prop where
  defaultNodes : t.defaultNodes = t'.defaultNodes
  data : Maps.Same t.data t'.data

omit [FluidexCommon] in
theorem Same.getValue_eq {t t' : Tree h} (hs : t.Same t') (level j : ℕ) :
    t.getValue level j = t'.getValue level j := by
  rw [getValue, getValue, hs.defaultNodes, hs.data]

/-! ## The path of a leaf -/

omit [FluidexCommon] in
/-- Nodes in range are stored in different places. -/
theorem flattenedIdx_ne {l l' j j' : ℕ} (hl : l ≤ h) (hl' : l' ≤ h) (hj : j < 2 ^ (h - l))
    (hj' : j' < 2 ^ (h - l')) (hne : l ≠ l' ∨ j ≠ j') :
    flattenedIdx h l j ≠ flattenedIdx h l' j' := by
  rcases lt_trichotomy l l' with hlt | rfl | hlt
  · exact (flattenedIdx_lt hlt hl' hj).ne
  · rw [flattenedIdx, flattenedIdx]
    have hj := hne.resolve_left (· rfl)
    omega
  · exact (flattenedIdx_lt hlt hl hj').ne'

/-- The nodes that are not recomputed are kept. -/
theorem lookup_recalculateParents_of_ne {level n m : ℕ}
    (hm : ∀ l < n, m ≠ flattenedIdx h (level + l + 1) (i / 2 ^ (l + 1))) :
    (t.recalculateParents level n i).data.lookup m = t.data.lookup m := by
  induction n generalizing t level i with
  | zero => rfl
  | succ n ih =>
    rw [recalculateParents, ih]
    · have hm₀ := hm 0 n.succ_pos
      rw [pow_one] at hm₀
      exact AList.lookup_insert_ne hm₀
    · intro l hl
      have hml := hm (l + 1) (Nat.succ_lt_succ hl)
      rwa [parentIdx, Nat.div_div_eq_div_mul, ← pow_succ', show level + 1 + l + 1 =
        level + (l + 1) + 1 by omega]

/-- A level below the nodes that are recomputed is kept. -/
theorem getValue_recalculateParents {level n j : ℕ} (hn : level + n ≤ h) (hi : i < 2 ^ (h - level))
    (hj : j < 2 ^ (h - level)) :
    (t.recalculateParents level n i).getValue level j = t.getValue level j := by
  have hdef := t.defaultNodes_recalculateParents level n i
  rw [getValue, getValue, hdef, lookup_recalculateParents_of_ne]
  intro l hl
  refine flattenedIdx_ne (by omega) (by omega) hj ?_ (.inl (by omega))
  rw [Nat.add_assoc, ← Nat.sub_sub]
  exact div_pow_lt hi (by omega)

/-- A node that is recomputed is the hash of its children. -/
theorem lookup_recalculateParents_path {level n l : ℕ} (hn : level + n ≤ h)
    (hi : i < 2 ^ (h - level)) (hl : l < n) :
    (t.recalculateParents level n i).data.lookup
        (flattenedIdx h (level + l + 1) (i / 2 ^ (l + 1))) =
      some (hash2 ((t.recalculateParents level n i).getValue (level + l) (i / 2 ^ (l + 1) * 2))
        ((t.recalculateParents level n i).getValue (level + l) (i / 2 ^ (l + 1) * 2 + 1))) := by
  induction n generalizing t level i l with
  | zero => cases hl
  | succ n ih =>
    have hpow : 2 ^ (h - level) = 2 * 2 ^ (h - (level + 1)) := two_pow_sub (by omega)
    have hparent : i / 2 < 2 ^ (h - (level + 1)) := by omega
    cases l with
    | zero =>
      -- the first node that is stored, the later ones being above it
      have hchild {c : ℕ} (hc : c < 2 ^ (h - level)) :
          (t.recalculateParents level (n + 1) i).getValue level c = t.getValue level c :=
        getValue_recalculateParents hn hi hc
      simp only [Nat.add_zero, zero_add, pow_one]
      rw [hchild (by omega), hchild (by omega), recalculateParents, parentIdx,
        lookup_recalculateParents_of_ne]
      · exact AList.lookup_insert _
      · intro l hl
        refine flattenedIdx_ne (by omega) (by omega) hparent ?_ (.inl (by omega))
        rw [Nat.add_assoc, ← Nat.sub_sub]
        exact div_pow_lt hparent (by omega)
    | succ l =>
      have hdiv : i / 2 / 2 ^ (l + 1) = i / 2 ^ (l + 1 + 1) := by
        rw [Nat.div_div_eq_div_mul, ← pow_succ']
      have hlevel : level + 1 + l = level + (l + 1) := by omega
      rw [recalculateParents, parentIdx, ← hdiv, ← hlevel]
      exact ih (by omega) hparent (Nat.lt_of_succ_lt_succ hl)

/-- Only the path of the leaf is stored. -/
theorem lookup_put_of_ne {m : ℕ} (hm : ∀ l ≤ h, m ≠ flattenedIdx h l (i / 2 ^ l)) :
    (t.put i v).data.lookup m = t.data.lookup m := by
  rw [put, lookup_recalculateParents_of_ne]
  · have hleaf := hm 0 (Nat.zero_le h)
    rw [pow_zero, Nat.div_one] at hleaf
    exact AList.lookup_insert_ne hleaf
  · intro l hl
    rw [zero_add]
    exact hm (l + 1) hl

theorem lookup_put_zero (hi : i < 2 ^ h) :
    (t.put i v).data.lookup (flattenedIdx h 0 i) = some v := by
  rw [put, lookup_recalculateParents_of_ne]
  · exact AList.lookup_insert _
  · intro l hl
    exact flattenedIdx_ne (Nat.zero_le h) (by omega) hi
      (by rw [zero_add]; exact div_pow_lt hi hl) (.inl (by omega))

/-- The inner nodes of the path are the hashes of their children. -/
theorem lookup_put_path {l : ℕ} (hi : i < 2 ^ h) (hl : l < h) :
    (t.put i v).data.lookup (flattenedIdx h (l + 1) (i / 2 ^ (l + 1))) =
      some (hash2 ((t.put i v).getValue l (i / 2 ^ (l + 1) * 2))
        ((t.put i v).getValue l (i / 2 ^ (l + 1) * 2 + 1))) := by
  have hpath := @lookup_recalculateParents_path _ h (t.insert 0 i v) i 0 h l (zero_add h).le hi hl
  rwa [zero_add] at hpath

/-- A node in range is kept if it is not above the leaf. -/
theorem lookup_put_of_div_ne {l j : ℕ} (hi : i < 2 ^ h) (hl : l ≤ h) (hj : j < 2 ^ (h - l))
    (hne : j ≠ i / 2 ^ l) :
    (t.put i v).data.lookup (flattenedIdx h l j) = t.data.lookup (flattenedIdx h l j) := by
  refine lookup_put_of_ne fun l' hl' => ?_
  refine flattenedIdx_ne hl hl' hj (div_pow_lt hi hl') ?_
  by_cases hll : l = l'
  · exact .inr (hll ▸ hne)
  · exact .inl hll

/-! ## Two leaves -/

/-- Above the first leaf too, the nodes are the hashes of their children after both writes. -/
theorem lookup_put_put_path {l : ℕ} (hi : i < 2 ^ h) (hk : k < 2 ^ h) (hl : l < h) :
    ((t.put i v).put k w).data.lookup (flattenedIdx h (l + 1) (i / 2 ^ (l + 1))) =
      some (hash2 (((t.put i v).put k w).getValue l (i / 2 ^ (l + 1) * 2))
        (((t.put i v).put k w).getValue l (i / 2 ^ (l + 1) * 2 + 1))) := by
  by_cases heq : i / 2 ^ (l + 1) = k / 2 ^ (l + 1)
  · rw [heq]
    exact lookup_put_path hk hl
  · have hpow : 2 ^ (h - l) = 2 * 2 ^ (h - (l + 1)) := two_pow_sub hl
    have hdiv : k / 2 ^ (l + 1) = k / 2 ^ l / 2 := by rw [Nat.div_div_eq_div_mul, ← pow_succ]
    have hnode : i / 2 ^ (l + 1) < 2 ^ (h - (l + 1)) := div_pow_lt hi hl
    -- neither the node nor its children are above the second leaf
    have hchild {c : ℕ} (hc : c < 2 ^ (h - l)) (hne : c ≠ k / 2 ^ l) :
        ((t.put i v).put k w).getValue l c = (t.put i v).getValue l c := by
      rw [getValue, getValue, lookup_put_of_div_ne hk hl.le hc hne, defaultNodes_put]
    rw [lookup_put_of_div_ne hk hl hnode heq, lookup_put_path hi hl, hchild (by omega) (by omega),
      hchild (by omega) (by omega)]

theorem lookup_put_leaf {j : ℕ} (hi : i < 2 ^ h) (hj : j < 2 ^ h) :
    (t.put i v).data.lookup (flattenedIdx h 0 j) =
      if j = i then some v else t.data.lookup (flattenedIdx h 0 j) := by
  split
  · next hji => rw [hji, lookup_put_zero hi]
  · next hji =>
    exact lookup_put_of_div_ne hi (Nat.zero_le h) hj (by rwa [pow_zero, Nat.div_one])

/-- A node in range does not depend on the order of the writes, as its children do not. -/
theorem lookup_put_comm (hi : i < 2 ^ h) (hk : k < 2 ^ h) (hne : i ≠ k) {l : ℕ} (hl : l ≤ h) {j : ℕ}
    (hj : j < 2 ^ (h - l)) :
    ((t.put i v).put k w).data.lookup (flattenedIdx h l j) =
      ((t.put k w).put i v).data.lookup (flattenedIdx h l j) := by
  induction l generalizing j with
  | zero =>
    rw [Nat.sub_zero] at hj
    rw [lookup_put_leaf hk hj, lookup_put_leaf hi hj, lookup_put_leaf hi hj, lookup_put_leaf hk hj]
    split
    · next hjk => rw [if_neg (hjk ▸ hne.symm)]
    · rfl
  | succ l ih =>
    have hl' : l < h := hl
    have hpow : 2 ^ (h - l) = 2 * 2 ^ (h - (l + 1)) := two_pow_sub hl'
    have hchild {c : ℕ} (hc : c < 2 ^ (h - l)) : ((t.put i v).put k w).getValue l c =
        ((t.put k w).put i v).getValue l c := by
      simp only [getValue, ih hl'.le hc, defaultNodes_put]
    -- above the first leaf, above the second one, or above none
    by_cases hji : j = i / 2 ^ (l + 1)
    · subst hji
      rw [lookup_put_put_path hi hk hl', lookup_put_path hi hl', hchild (by omega),
        hchild (by omega)]
    · by_cases hjk : j = k / 2 ^ (l + 1)
      · subst hjk
        rw [lookup_put_put_path hk hi hl', lookup_put_path hk hl', hchild (by omega),
          hchild (by omega)]
      · rw [lookup_put_of_div_ne hk hl hj hjk, lookup_put_of_div_ne hi hl hj hji,
          lookup_put_of_div_ne hi hl hj hji, lookup_put_of_div_ne hk hl hj hjk]

/-- Two leaves in range can be written in either order. -/
theorem put_comm (t : Tree h) (hi : i < 2 ^ h) (hk : k < 2 ^ h) (hne : i ≠ k) (v w : Fr) :
    ((t.put i v).put k w).Same ((t.put k w).put i v) where
  defaultNodes := by simp only [defaultNodes_put]
  data := by
    intro m
    by_cases hm : ∃ l ≤ h, ∃ j < 2 ^ (h - l), m = flattenedIdx h l j
    · obtain ⟨l, hl, j, hj, rfl⟩ := hm
      exact lookup_put_comm hi hk hne hl hj
    · -- the place of no node in range
      have hout {a : ℕ} (ha : a < 2 ^ h) : ∀ l ≤ h, m ≠ flattenedIdx h l (a / 2 ^ l) :=
        fun l hl hml => hm ⟨l, hl, _, div_pow_lt ha hl, hml⟩
      rw [lookup_put_of_ne (hout hk), lookup_put_of_ne (hout hi), lookup_put_of_ne (hout hi),
        lookup_put_of_ne (hout hk)]

end Tree

end Rollup
