import Rollup.Lib.Ensures
import Rollup.Tree.Filling

/-!
# Indices that are checked

Every function writing leaves checks their indices but one: `setValueParallel`, when it writes
by chunks. As long as it is called in range (`Call.Checked`), every parent is the hash of its
children, whatever else is called (`isMerkle_of_checked`). So the proof of a leaf authenticates
its updates (`authenticates_of_checked`), and leaves written in parallel are written one by
one (`writesInOrder_of_checked`).

Out of range, `setValue` panics unless what is stored there is the value already, and the
chunks overwrite inner nodes (`rejects_iff`): neither result holds of a tree that has been
written so.
-/

namespace Rollup

namespace Tree

variable {h : ℕ}

/-- Leaves are written by chunks in range only. -/
def Call.Checked (h : ℕ) : Call → Prop
  | .setValueParallel updates parallel => parallel = 1 ∨ ∀ u ∈ updates, u.1 < 2 ^ h
  | .setValue _ _ | .fillWithLeavesVec _ | .fillWithLeavesMap _ _ => True

variable [FluidexCommon] {t t' : Tree h} {i : ℕ}

/-! ## The trees that are reached -/

theorem IsMerkle.put (ht : t.IsMerkle) (hi : i < 2 ^ h) (v : Fr) : (t.put i v).IsMerkle :=
  (ht.represents.put hi v).isMerkle

/-- Whatever the index. -/
theorem IsMerkle.setValue (ht : t.IsMerkle) {v : Fr} (hset : t.setValue i v = .ok t') :
    t'.IsMerkle := by
  rcases setValue_cases hset with ⟨-, rfl⟩ | ⟨hi, rfl⟩
  · exact ht
  · exact ht.put hi v

theorem IsMerkle.foldlM_setValue {β : Type} {idx : β → ℕ} {value : β → Fr} {l : List β}
    (ht : t.IsMerkle) (hset : l.foldlM (fun t b => t.setValue (idx b) (value b)) t = .ok t') :
    t'.IsMerkle :=
  Exec.Ensures.foldlM (fun _ _ _ hM _ hs => hM.setValue hs) ht t' hset

theorem IsMerkle.call (ht : t.IsMerkle) {c : Call} (hc : c.Checked h) (hcall : t.call c = .ok t') :
    t'.IsMerkle := by
  cases c with
  | setValue idx value => exact ht.setValue hcall
  | setValueParallel updates parallel =>
    rcases hc with rfl | hu
    · exact ht.foldlM_setValue hcall
    · exact (ht.represents.setValueParallel hu hcall).isMerkle
  | fillWithLeavesVec leaves =>
    obtain ⟨-, hset⟩ := Exec.assert_bind_eq_ok_iff.1 hcall
    exact ht.foldlM_setValue hset
  | fillWithLeavesMap iteration leaves => exact ht.foldlM_setValue hcall

/-- In a tree that is only written by chunks in range, every parent is the hash of its children. -/
theorem isMerkle_of_checked {v₀ : Fr} {t₀ : Tree h} (hnew : new h v₀ = .ok t₀)
    (ht : Exec.Reachable Tree.call (fun _ c => c.Checked h) t₀ t) : t.IsMerkle := by
  obtain ⟨-, hnew⟩ := Exec.assert_bind_eq_ok_iff.1 hnew
  rw [Exec.pure_eq_ok_iff] at hnew
  subst hnew
  exact ht.invariant (represents_empty h v₀).isMerkle fun _ _ _ _ hs hc hcall => hs.call hc hcall

/-! ## Proofs of updates -/

/-- The pairs of children that are hashed when `v` is folded up along the proof of the leaf `i`. -/
def hashed (t : Tree h) (i : ℕ) (v : Fr) : List (Fr × Fr) :=
  Merkle.pairs hash2 (t.getProof i).pathElements i v

/-- The hash has no collision between the pairs of two lists. -/
def HashesApart (ps qs : List (Fr × Fr)) : Prop :=
  ∀ p ∈ ps, ∀ q ∈ qs, Fr.hash [p.1, p.2] = Fr.hash [q.1, q.2] → p = q

/-- The proof of the leaf `i` authenticates writing `v` there. -/
structure Authenticates (t : Tree h) (i : ℕ) (v : Fr) : Prop where
  root : Merkle.fold hash2 (t.getProof i).pathElements i (t.getProof i).leaf = t.getRoot
  update : ∃ t', t.setValue i v = .ok t' ∧
    (t'.getProof i).pathElements = (t.getProof i).pathElements ∧
    Merkle.fold hash2 (t.getProof i).pathElements i v = t'.getRoot
  binding : ∀ w w', HashesApart (t.hashed i w) (t.hashed i w') →
    Merkle.fold hash2 (t.getProof i).pathElements i w =
      Merkle.fold hash2 (t.getProof i).pathElements i w' → w = w'

/-- The path of a leaf does not depend on it. -/
theorem Represents.pathElements_update {leaf : ℕ → Fr} {v : Fr} (ht : t.Represents leaf)
    (ht' : t'.Represents (Function.update leaf i v)) (hi : i < 2 ^ h) :
    (t'.getProof i).pathElements = (t.getProof i).pathElements := by
  rw [ht.pathElements hi, ht'.pathElements hi]
  exact Merkle.path_congr hi fun j _ hne => Function.update_of_ne hne v leaf

theorem IsMerkle.authenticates (ht : t.IsMerkle) (hi : i < 2 ^ h) (v : Fr) : t.Authenticates i v where
  root := by
    have hleaf : (t.getProof i).leaf = t.getLeaf i := rfl
    rw [ht.represents.fold hi, hleaf, Function.update_eq_self, ht.represents.getRoot]
  update := by
    obtain ⟨t', hset⟩ := t.exists_setValue hi v
    have ht' := ht.represents.setValue hi hset
    exact ⟨t', hset, ht.represents.pathElements_update ht' hi,
      (ht.represents.fold hi v).trans ht'.getRoot.symm⟩
  binding _ _ happart hfold := Merkle.eq_of_fold_eq happart hfold

/-- In a tree that is only written by chunks in range, the proof of a leaf authenticates its
    updates. -/
theorem authenticates_of_checked {v₀ : Fr} {t₀ : Tree h} (hnew : new h v₀ = .ok t₀)
    (ht : Exec.Reachable Tree.call (fun _ c => c.Checked h) t₀ t) {i : ℕ} (hi : i < 2 ^ h) (v : Fr) :
    t.Authenticates i v :=
  (isMerkle_of_checked hnew ht).authenticates hi v

/-! ## Writing in parallel -/

/-- Writing leaves in parallel gives the nodes that writing them one by one does. -/
def WritesInOrder (t : Tree h) (updates : List (ℕ × Fr)) (parallel : ℕ) : Prop :=
  ∃ t₁ t₂, t.setValueParallel updates parallel = .ok t₁ ∧
    updates.foldlM (fun t update => t.setValue update.1 update.2) t = .ok t₂ ∧
    ∀ level ≤ h, ∀ j < 2 ^ (h - level), t₁.getValue level j = t₂.getValue level j

theorem IsMerkle.writesInOrder (ht : t.IsMerkle) {updates : List (ℕ × Fr)}
    (hu : ∀ u ∈ updates, u.1 < 2 ^ h) (parallel : ℕ) : t.WritesInOrder updates parallel := by
  obtain ⟨t₁, hset₁, ht₁⟩ := exists_setValueParallel ht.represents hu parallel
  obtain ⟨t₂, hset₂, ht₂⟩ := exists_foldlM_setValue t hu
  refine ⟨t₁, t₂, hset₁, hset₂, fun level hl j hj => ?_⟩
  rw [ht₁ level hl j hj, ht₂ _ ht.represents level hl j hj]

/-- In a tree that is only written by chunks in range, leaves in range can be written in
    parallel, in chunks of any length. -/
theorem writesInOrder_of_checked {v₀ : Fr} {t₀ : Tree h} (hnew : new h v₀ = .ok t₀)
    (ht : Exec.Reachable Tree.call (fun _ c => c.Checked h) t₀ t) {updates : List (ℕ × Fr)}
    (hu : ∀ u ∈ updates, u.1 < 2 ^ h) (parallel : ℕ) : t.WritesInOrder updates parallel :=
  (isMerkle_of_checked hnew ht).writesInOrder hu parallel

/-! ## Indices out of range -/

/-- Both functions reject writing `v` to the leaf `i`. -/
def Rejects (t : Tree h) (i : ℕ) (v : Fr) (parallel : ℕ) : Prop :=
  (∃ p, t.setValue i v = .error p) ∧ ∃ p, t.setValueParallel [(i, v)] parallel = .error p

theorem setValue_of_le (t : Tree h) (hi : 2 ^ h ≤ i) (v : Fr) : t.setValue i v =
    if t.getLeaf i = v then .ok t else .error (.explicit s!"invalid tree idx {i}") := by
  have hmax : t.maxLeafNum ≤ i := hi
  rw [setValue, if_pos hmax]

/-- An index out of range is rejected when the leaf is written on its own and is not what is
    stored there already. -/
theorem rejects_iff (t : Tree h) (hi : 2 ^ h ≤ i) (v : Fr) (parallel : ℕ) :
    t.Rejects i v parallel ↔ parallel = 1 ∧ t.getLeaf i ≠ v := by
  rw [Rejects, t.setValue_of_le hi]
  by_cases hv : t.getLeaf i = v
  · simp [hv]
  rw [if_neg hv]
  rcases eq_or_ne parallel 1 with rfl | hp
  · have hset : t.setValueParallel [(i, v)] 1 = .error (.explicit s!"invalid tree idx {i}") := by
      simp only [setValueParallel, one_ne_zero, if_false, if_true, List.foldlM_cons,
        t.setValue_of_le hi, if_neg hv, Exec.error_bind]
    exact iff_of_true ⟨⟨_, rfl⟩, _, hset⟩ ⟨rfl, hv⟩
  · have hset := t.setValueParallel_eq [(i, v)] hp
    refine iff_of_false ?_ fun h => hp h.1
    rintro ⟨-, p, herror⟩
    rw [hset] at herror
    cases herror

end Tree

section Example

open Rollup.Tree

attribute [local instance] FluidexCommon.sample

/-- Two leaves are written by a chunk, one of them twice, then a third leaf. -/
def checkedCalls : List Call := [.setValueParallel [(1, 5), (2, 6), (1, 7)] 2, .setValue 0 8]

theorem checked_checkedCalls : ∀ c ∈ checkedCalls, ∀ _ : Tree 2, c.Checked 2 := by
  simp only [checkedCalls, List.forall_mem_cons]
  refine ⟨fun _ => .inr ?_, fun _ => trivial, List.forall_mem_nil _⟩
  decide

theorem authenticates_of_checked_checkedCalls : ∃ t₀ t : Tree 2, new 2 0 = .ok t₀ ∧
    Exec.run call t₀ checkedCalls = .ok t ∧ t.Authenticates 1 9 := by
  obtain ⟨⟨t₀, t⟩, ht⟩ := Exec.exists_eq_ok (do
    let t₀ ← new 2 0
    let t ← Exec.run call t₀ checkedCalls
    pure (t₀, t)) (by decide +kernel)
  simp only [Exec.bind_eq_ok_iff, Exec.pure_eq_ok_iff, Prod.mk.injEq] at ht
  obtain ⟨t₀, hnew, t, hrun, rfl, rfl⟩ := ht
  exact ⟨t₀, t, hnew, hrun, authenticates_of_checked hnew
    (Exec.Reachable.init.run checked_checkedCalls hrun) (by decide) 9⟩

theorem writesInOrder_of_checked_checkedCalls : ∃ t₀ t : Tree 2, new 2 0 = .ok t₀ ∧
    Exec.run call t₀ checkedCalls = .ok t ∧ t.WritesInOrder [(3, 1), (0, 8), (3, 2), (2, 6)] 3 := by
  obtain ⟨⟨t₀, t⟩, ht⟩ := Exec.exists_eq_ok (do
    let t₀ ← new 2 0
    let t ← Exec.run call t₀ checkedCalls
    pure (t₀, t)) (by decide +kernel)
  simp only [Exec.bind_eq_ok_iff, Exec.pure_eq_ok_iff, Prod.mk.injEq] at ht
  obtain ⟨t₀, hnew, t, hrun, rfl, rfl⟩ := ht
  exact ⟨t₀, t, hnew, hrun, writesInOrder_of_checked hnew
    (Exec.Reachable.init.run checked_checkedCalls hrun) (by decide) 3⟩

/-- The index `4` is that of the first inner node. -/
def outOfRange : Call := .setValueParallel [(4, 9)] 2

/-- The node above the leaf `0` is no longer the hash of its children. -/
theorem not_authenticates_outOfRange : ∃ t₀ t : Tree 2, new 2 0 = .ok t₀ ∧
    Exec.run call t₀ [outOfRange] = .ok t ∧ ¬t.Authenticates 0 9 := by
  obtain ⟨⟨t₀, t⟩, ht⟩ := Exec.exists_eq_ok (do
    let t₀ ← new 2 0
    let t ← Exec.run call t₀ [outOfRange]
    assert (Merkle.fold hash2 (t.getProof 0).pathElements 0 (t.getProof 0).leaf ≠ t.getRoot) "root"
    pure (t₀, t)) (by decide +kernel)
  simp only [Exec.bind_eq_ok_iff, Exec.assert_eq_ok_iff, Exec.pure_eq_ok_iff, Prod.mk.injEq] at ht
  obtain ⟨t₀, hnew, t, hrun, _, hroot, rfl, rfl⟩ := ht
  exact ⟨t₀, t, hnew, hrun, fun hauth => hroot hauth.root⟩

/-- Writing the leaf `0` again, as it is, recomputes the root in one case only. -/
theorem not_writesInOrder_outOfRange : ∃ t₀ t : Tree 2, new 2 0 = .ok t₀ ∧
    Exec.run call t₀ [outOfRange] = .ok t ∧ ¬t.WritesInOrder [(0, 0)] 2 := by
  obtain ⟨⟨t₀, t, t₁, t₂⟩, ht⟩ := Exec.exists_eq_ok (do
    let t₀ ← new 2 0
    let t ← Exec.run call t₀ [outOfRange]
    let t₁ ← t.setValueParallel [(0, 0)] 2
    let t₂ ← t.setValue 0 0
    assert (t₁.getRoot ≠ t₂.getRoot) "root"
    pure (t₀, t, t₁, t₂)) (by decide +kernel)
  simp only [Exec.bind_eq_ok_iff, Exec.assert_eq_ok_iff, Exec.pure_eq_ok_iff, Prod.mk.injEq] at ht
  obtain ⟨t₀, hnew, t, hrun, t₁, h₁, t₂, h₂, _, hroot, rfl, rfl, -, -⟩ := ht
  refine ⟨t₀, t, hnew, hrun, ?_⟩
  rintro ⟨u₁, u₂, hu₁, hu₂, hnodes⟩
  rw [List.foldlM_cons, h₂, Exec.ok_bind, List.foldlM_nil, Exec.pure_eq_ok_iff] at hu₂
  obtain rfl := Except.ok.inj (h₁.symm.trans hu₁)
  subst hu₂
  exact hroot (hnodes 2 le_rfl 0 (by decide))

end Example

end Rollup
