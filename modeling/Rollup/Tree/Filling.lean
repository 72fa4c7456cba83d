import Rollup.Tree.Refine

/-!
# Writing many leaves

A tree is written by four functions: one leaf, a list of leaves by chunks, all the leaves, or
those of a map, in whatever order it is iterated (`Call`). Whatever the calls, as long as their
indices are in range, a new tree is the full binary tree over the values written last
(`filled_represents`): neither the order of the other writes nor their number matters.
-/

namespace Rollup

theorem writes_of_find? (updates : List (ℕ × Fr)) (leaf : ℕ → Fr) (i : ℕ) :
    writes updates leaf i =
      ((updates.reverse.find? fun u => u.1 = i).map Prod.snd).getD (leaf i) := by
  induction updates generalizing leaf with
  | nil => rfl
  | cons u us ih =>
    rw [writes_cons, ih, List.reverse_cons, List.find?_append]
    cases hfind : us.reverse.find? fun u => u.1 = i with
    | some w => rfl
    | none =>
      rw [Option.map_none, Option.getD_none, Option.none_or, Function.update_apply]
      by_cases hu : i = u.1
      · simp [hu]
      · simp [hu, Ne.symm hu]

/-- The leaves of a list are written at the indices from `k` on. -/
theorem writes_zipIdx (leaves : List Fr) (leaf : ℕ → Fr) (k i : ℕ) :
    writes ((leaves.zipIdx k).map Prod.swap) leaf i =
      if k ≤ i then leaves[i - k]?.getD (leaf i) else leaf i := by
  induction leaves generalizing leaf k with
  | nil => simp
  | cons v vs ih =>
    rw [List.zipIdx_cons, List.map_cons, writes_cons, ih, Prod.fst_swap, Prod.snd_swap,
      Function.update_apply]
    -- before the list, its first element, or the others
    rcases lt_trichotomy i k with hlt | rfl | hgt
    · rw [if_neg (by omega), if_neg hlt.ne, if_neg (by omega)]
    · rw [if_neg (by omega), if_pos rfl, if_pos le_rfl, Nat.sub_self]
      rfl
    · rw [if_pos (by omega), if_neg hgt.ne', if_pos hgt.le, show i - k = i - (k + 1) + 1 by omega]
      rfl

/-- The leaves of a map are written in any order. -/
theorem writes_entries {entries : List ((_ : ℕ) × Fr)} (hnodup : entries.NodupKeys)
    (leaf : ℕ → Fr) (i : ℕ) :
    writes (entries.map fun e => (e.1, e.2)) leaf i = (entries.dlookup i).getD (leaf i) := by
  induction entries generalizing leaf with
  | nil => rfl
  | cons e es ih =>
    obtain ⟨k, v⟩ := e
    obtain ⟨hnotMem, hnodup⟩ := List.nodupKeys_cons.1 hnodup
    rw [List.map_cons, writes_cons, ih hnodup, Function.update_apply]
    rcases eq_or_ne i k with rfl | hi
    · -- the key is not written again
      rw [List.dlookup_eq_none.2 hnotMem, if_pos rfl, Option.getD_none, List.dlookup_cons_eq,
        Option.getD_some]
    · have hne := List.dlookup_cons_ne es (⟨k, v⟩ : (_ : ℕ) × Fr) hi
      rw [if_neg hi, hne]

namespace Tree

variable {h : ℕ} {t t' : Tree h} {leaf : ℕ → Fr}

/-- A call of one of the functions writing leaves. -/
inductive Call where
  | setValue (idx : ℕ) (value : Fr)
  | setValueParallel (updates : List (ℕ × Fr)) (parallel : ℕ)
  | fillWithLeavesVec (leaves : List Fr)
  | fillWithLeavesMap (iteration : Shuffle ((_ : ℕ) × Fr)) (leaves : FnvHashMap ℕ Fr)

namespace Call

/-- The indices are those of leaves, and a list of all the leaves is of their number. -/
def InRange (h : ℕ) : Call → Prop
  | .setValue idx _ => idx < 2 ^ h
  | .setValueParallel updates _ => ∀ u ∈ updates, u.1 < 2 ^ h
  | .fillWithLeavesVec leaves => leaves.length = 2 ^ h
  | .fillWithLeavesMap _ leaves => ∀ i ∈ leaves.keys, i < 2 ^ h

/-- The value that the call leaves at an index, if it writes it. -/
def written (i : ℕ) : Call → Option Fr
  | .setValue idx value => if idx = i then some value else none
  | .setValueParallel updates _ => (updates.reverse.find? fun u => u.1 = i).map Prod.snd
  | .fillWithLeavesVec leaves => leaves[i]?
  | .fillWithLeavesMap _ leaves => leaves.lookup i

end Call

variable [FluidexCommon]

/-- Making a call, which may stop with a panic. -/
def call (t : Tree h) : Call → Except Panic (Tree h)
  | .setValue idx value => t.setValue idx value
  | .setValueParallel updates parallel => t.setValueParallel updates parallel
  | .fillWithLeavesVec leaves => t.fillWithLeavesVec leaves
  | .fillWithLeavesMap iteration leaves => t.fillWithLeavesMap iteration leaves

/-- The last value written at an index. -/
def lastWritten (calls : List Call) (i : ℕ) : Option Fr :=
  calls.reverse.findSome? (Call.written i)

/-! ## One call -/

/-- Leaves in range are written one by one, whatever the tree. -/
theorem exists_foldlM_setValue (t : Tree h) {updates : List (ℕ × Fr)}
    (hu : ∀ u ∈ updates, u.1 < 2 ^ h) :
    ∃ t', updates.foldlM (fun t u => t.setValue u.1 u.2) t = .ok t' ∧
      ∀ leaf, t.Represents leaf → t'.Represents (writes updates leaf) := by
  induction updates generalizing t with
  | nil => exact ⟨t, rfl, fun _ => id⟩
  | cons u us ih =>
    obtain ⟨hfirst, hrest⟩ := List.forall_mem_cons.1 hu
    obtain ⟨t₁, ht₁⟩ := t.exists_setValue hfirst u.2
    obtain ⟨t', hrun, ht'⟩ := ih t₁ hrest
    refine ⟨t', ?_, fun leaf ht => ht' _ (ht.setValue hfirst ht₁)⟩
    rw [List.foldlM_cons, ht₁, Exec.ok_bind, hrun]

theorem exists_setValueParallel (ht : t.Represents leaf) {updates : List (ℕ × Fr)}
    (hu : ∀ u ∈ updates, u.1 < 2 ^ h) (parallel : ℕ) :
    ∃ t', t.setValueParallel updates parallel = .ok t' ∧ t'.Represents (writes updates leaf) := by
  rcases eq_or_ne parallel 1 with rfl | hp
  · obtain ⟨t', hset, ht'⟩ := exists_foldlM_setValue t hu
    exact ⟨t', hset, ht' leaf ht⟩
  · have hset := t.setValueParallel_eq updates hp
    exact ⟨_, hset, ht.setValueParallel hu hset⟩

/-- A call in range writes the leaves. -/
theorem Represents.call (ht : t.Represents leaf) {c : Call} (hc : c.InRange h) :
    ∃ t', t.call c = .ok t' ∧ t'.Represents fun i => (c.written i).getD (leaf i) := by
  cases c with
  | setValue idx value =>
    obtain ⟨t', ht'⟩ := t.exists_setValue hc value
    refine ⟨t', ht', (ht.setValue hc ht').congr fun j _ => ?_⟩
    rw [Function.update_apply, Call.written]
    by_cases hj : idx = j
    · rw [if_pos hj, if_pos hj.symm, Option.getD_some]
    · rw [if_neg hj, if_neg (Ne.symm hj), Option.getD_none]
  | setValueParallel updates parallel =>
    obtain ⟨t', hset, ht'⟩ := exists_setValueParallel ht hc parallel
    exact ⟨t', hset, ht'.congr fun j _ => writes_of_find? updates leaf j⟩
  | fillWithLeavesVec leaves =>
    -- the leaves are those of the first indices
    have hu : ∀ u ∈ leaves.zipIdx.map Prod.swap, u.1 < 2 ^ h := by
      intro u hu
      obtain ⟨⟨v, i⟩, hmem, rfl⟩ := List.mem_map.1 hu
      exact hc ▸ (List.mem_zipIdx' hmem).1
    obtain ⟨t', hset, ht'⟩ := exists_foldlM_setValue t hu
    refine ⟨t', ?_, (ht' leaf ht).congr fun j _ => ?_⟩
    · rw [List.foldlM_map] at hset
      exact Exec.assert_bind_eq_ok_iff.2 ⟨hc, hset⟩
    · rw [writes_zipIdx, if_pos (Nat.zero_le j), Nat.sub_zero, Call.written]
  | fillWithLeavesMap iteration leaves =>
    have hperm := iteration.perm leaves.entries
    -- the iteration has every key once
    have hnodup : (iteration.order leaves.entries).NodupKeys :=
      (List.perm_nodupKeys hperm).2 leaves.nodupKeys
    have hu : ∀ u ∈ (iteration.order leaves.entries).map fun e => (e.1, e.2), u.1 < 2 ^ h := by
      intro u hu
      obtain ⟨e, hmem, rfl⟩ := List.mem_map.1 hu
      exact hc e.1 (List.mem_keys_of_mem (hperm.mem_iff.1 hmem))
    obtain ⟨t', hset, ht'⟩ := exists_foldlM_setValue t hu
    refine ⟨t', ?_, (ht' leaf ht).congr fun j _ => ?_⟩
    · rw [List.foldlM_map] at hset
      exact hset
    · rw [writes_entries hnodup, List.perm_dlookup j hnodup hperm]
      rfl

/-! ## All of them -/

omit [FluidexCommon] in
theorem lastWritten_cons (c : Call) (calls : List Call) (i : ℕ) :
    lastWritten (c :: calls) i = (lastWritten calls i).or (c.written i) := by
  rw [lastWritten, List.reverse_cons, List.findSome?_append, List.findSome?_singleton]
  rfl

theorem Represents.run_call (ht : t.Represents leaf) {calls : List Call}
    (hcalls : ∀ c ∈ calls, c.InRange h) :
    ∃ t', Exec.run Tree.call t calls = .ok t' ∧
      t'.Represents fun i => (lastWritten calls i).getD (leaf i) := by
  induction calls generalizing t leaf with
  | nil => exact ⟨t, rfl, ht⟩
  | cons c calls ih =>
    obtain ⟨hc, hcalls⟩ := List.forall_mem_cons.1 hcalls
    obtain ⟨t₁, ht₁, hleaf⟩ := ht.call hc
    obtain ⟨t', hrun, ht'⟩ := ih hleaf hcalls
    refine ⟨t', Exec.run_cons.2 ⟨t₁, ht₁, hrun⟩, ht'.congr fun j _ => ?_⟩
    rw [lastWritten_cons, Option.getD_or]

/-- A new tree is the full binary tree over the values that are written last, so that its root
    is determined by them. -/
theorem filled_represents (hh : h ≤ 31) (v : Fr) {calls : List Call}
    (hcalls : ∀ c ∈ calls, c.InRange h) :
    ∃ t₀ t, new h v = .ok t₀ ∧ Exec.run call t₀ calls = .ok t ∧
      (∀ i < 2 ^ h, t.getLeaf i = (lastWritten calls i).getD v) ∧
      (∀ level ≤ h, ∀ j < 2 ^ (h - level), t.getValue level j =
        Merkle.node hash2 (fun i => (lastWritten calls i).getD v) level j) ∧
      t.getRoot = Merkle.node hash2 (fun i => (lastWritten calls i).getD v) h 0 ∧
      ∀ v' calls', (∀ c ∈ calls', c.InRange h) →
        (∀ i < 2 ^ h, (lastWritten calls' i).getD v' = (lastWritten calls i).getD v) →
        ∀ t₀' t', new h v' = .ok t₀' → Exec.run call t₀' calls' = .ok t' → t'.getRoot = t.getRoot := by
  have hnew (v : Fr) : new h v = .ok (empty h v) := new_eq (Nat.lt_succ_of_le hh) v
  obtain ⟨t, hrun, ht⟩ := (represents_empty h v).run_call hcalls
  refine ⟨empty h v, t, hnew v, hrun, fun i hi => ht.getLeaf hi, ht, ht.getRoot, ?_⟩
  intro v' calls' hcalls' hsame t₀' t' ht₀' hrun'
  obtain rfl := Except.ok.inj ((hnew v').symm.trans ht₀')
  obtain ⟨u, hu, hrep⟩ := (represents_empty h v').run_call hcalls'
  obtain rfl := Except.ok.inj (hu.symm.trans hrun')
  rw [(hrep.congr hsame).getRoot, ht.getRoot]

end Tree

section Example

open Rollup.Tree

attribute [local instance] FluidexCommon.sample

/-- All the leaves of a tree of height two, then some of them again. -/
def fourCalls : List Call :=
  [.fillWithLeavesVec [1, 2, 3, 4], .setValueParallel [(1, 5), (2, 6), (1, 7)] 2, .setValue 0 8,
    .fillWithLeavesMap .reverse ((∅ : FnvHashMap ℕ Fr).insert 3 9 |>.insert 0 10)]

theorem filled_represents_fourCalls : ∃ t₀ t : Tree 2, new 2 0 = .ok t₀ ∧
    Exec.run call t₀ fourCalls = .ok t ∧
    (∀ i < 2 ^ 2, t.getLeaf i = (lastWritten fourCalls i).getD 0) ∧
    t.getRoot = Merkle.node hash2 (fun i => (lastWritten fourCalls i).getD 0) 2 0 := by
  have hcalls : ∀ c ∈ fourCalls, c.InRange 2 := by
    simp only [fourCalls, List.forall_mem_cons]
    refine ⟨rfl, ?_, ?_, ?_, List.forall_mem_nil _⟩
    · show ∀ u ∈ [(1, (5 : Fr)), (2, 6), (1, 7)], u.1 < 2 ^ 2
      decide
    · show 0 < 2 ^ 2
      decide
    · show ∀ i ∈ [0, 3], i < 2 ^ 2
      decide
  obtain ⟨t₀, t, hnew, hrun, hleaf, -, hroot, -⟩ := filled_represents (by decide) 0 hcalls
  exact ⟨t₀, t, hnew, hrun, hleaf, hroot⟩

example : (List.range 4).map (fun i => (lastWritten fourCalls i).getD 0) = [10, 7, 6, 9] := by decide

end Example

end Rollup
