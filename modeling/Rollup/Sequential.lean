import Rollup.Commuting
import Rollup.Intact

/-!
# Batches in sequence

The trees of a batch are updated in parallel, in chunks of leaves, and its accounts are
committed to at the end; or each account is updated, leaf by leaf, and committed to before the
next one. If the accounts are different and the leaves in range, an intact state leads in both
ways to states with the same nodes (`GlobalState.Intact.batchUpdate_sameNodes`): the entries of
the accounts are changed independently, to entries with the same roots (`Entry.Batch.sameNodes`),
and the leaves of the account tree are written once each.

A batch may be a no-op on a tree. The nodes above the leaves that are written are then
recomputed in parallel only, which is the same as long as they are the hashes of their children.
-/

namespace Rollup

section Sequential

variable [FluidexCommon] {lv : Levels} {s s' : GlobalState lv} {L : Ledger lv} {a : ℕ}
  {e e' : Entry lv}

/-! ## The same nodes -/

omit [FluidexCommon] in
/-- The values of all the nodes are the same. -/
def Tree.SameNodes {h : ℕ} (t t' : Tree h) : Prop :=
  ∀ level ≤ h, ∀ j < 2 ^ (h - level), t.getValue level j = t'.getValue level j

omit [FluidexCommon] in
theorem Tree.SameNodes.getRoot_eq {h : ℕ} {t t' : Tree h} (ht : t.SameNodes t') :
    t.getRoot = t'.getRoot :=
  ht h le_rfl 0 (Nat.two_pow_pos _)

/-- The states only differ by how the nodes of their trees are stored. -/
structure GlobalState.SameNodes (s s' : GlobalState lv) : Prop where
  accountTree : s.accountTree.SameNodes s'.accountTree
  accountStates : Maps.Same s.accountStates s'.accountStates
  balanceTrees : ∀ a,
    Option.Rel Tree.SameNodes (s.balanceTrees.lookup a) (s'.balanceTrees.lookup a)
  orderTrees : ∀ a, Option.Rel Tree.SameNodes (s.orderTrees.lookup a) (s'.orderTrees.lookup a)
  orderStates : Maps.Same s.orderStates s'.orderStates
  orderIdToPos : Maps.Same s.orderIdToPos s'.orderIdToPos
  nextOrderPositions : Maps.Same s.nextOrderPositions s'.nextOrderPositions

/-- The accounts agree, up to which nodes the tree of the balances stores. -/
structure Entry.SameNodes (e e' : Entry lv) : Prop where
  state : e.state = e'.state
  balanceTree : e.balanceTree.SameNodes e'.balanceTree
  orderTree : e.orderTree = e'.orderTree
  orders : e.orders = e'.orders
  orderPos : e.orderPos = e'.orderPos
  nextOrderPos : e.nextOrderPos = e'.nextOrderPos

omit [FluidexCommon] in
theorem Tree.SameNodes.refl {h : ℕ} (t : Tree h) : t.SameNodes t := fun _ _ _ _ => rfl

omit [FluidexCommon] in
theorem Entry.SameNodes.refl (e : Entry lv) : e.SameNodes e := ⟨rfl, .refl _, rfl, rfl, rfl, rfl⟩

omit [FluidexCommon] in
/-- Trees of entries with the same nodes. -/
theorem rel_map_of_rel {h : ℕ} {M : Ledger lv} {g : Entry lv → Tree h}
    (hLM : Option.Rel Entry.SameNodes (L a) (M a))
    (hg : ∀ e e' : Entry lv, e.SameNodes e' → (g e).SameNodes (g e')) :
    Option.Rel Tree.SameNodes ((L a).map g) ((M a).map g) := by
  generalize L a = o at hLM
  generalize M a = o' at hLM
  cases hLM with
  | some hab => exact .some (hg _ _ hab)
  | none => exact .none

omit [FluidexCommon] in
theorem GlobalState.SameNodes.of_entries {M : Ledger lv} (h : Holds s L) (h' : Holds s' M)
    (hLM : ∀ a, Option.Rel Entry.SameNodes (L a) (M a))
    (htree : s.accountTree.SameNodes s'.accountTree) : s.SameNodes s' where
  accountTree := htree
  accountStates a := by
    rw [h.accountStates, h'.accountStates]
    exact map_eq_of_rel (hLM a) fun _ _ h => h.state
  balanceTrees a := by
    rw [h.balanceTrees, h'.balanceTrees]
    exact rel_map_of_rel (hLM a) fun _ _ h => h.balanceTree
  orderTrees a := by
    rw [h.orderTrees, h'.orderTrees]
    exact rel_map_of_rel (hLM a) fun _ _ h => h.orderTree ▸ .refl _
  orderStates a := by
    rw [h.orderStates, h'.orderStates]
    exact map_eq_of_rel (hLM a) fun _ _ h => h.orders
  orderIdToPos k := by
    have hpos := congrArg (fun o => o.bind fun orderPos => orderPos k.2)
      (map_eq_of_rel (hLM k.1) fun _ _ h => h.orderPos)
    rw [h.orderIdToPos, h'.orderIdToPos]
    rwa [Option.bind_map, Option.bind_map] at hpos
  nextOrderPositions a := by
    rw [h.nextOrderPositions, h'.nextOrderPositions]
    exact map_eq_of_rel (hLM a) fun _ _ h => h.nextOrderPos

/-! ## One account -/

namespace Entry

/-- The leaves are written one by one, then the account is committed to. -/
def InSequence (e : Entry lv) (u : AccountUpdates) (e' : Entry lv) : Prop :=
  ∃ bt ot, u.balanceUpdates.foldlM (fun t b => t.setValue b.1 b.2) e.balanceTree = .ok bt ∧
    u.orderUpdates.foldlM (fun t o => t.setValue o.1 o.2) e.orderTree = .ok ot ∧
    e' = (((e.setBalanceTree bt).setOrderTree ot).setNewNonce u.newNonce).commit

variable {u : AccountUpdates} {e₁ e₂ : Entry lv}

omit [FluidexCommon] in
/-- The entries only differ by how the nodes of the balances are stored. -/
theorem SameNodes.commit_setTrees {bt bt' : Tree lv.balanceLevels} (hbt : bt.SameNodes bt')
    (e : Entry lv) (ot : Tree lv.orderLevels) (nonce : Option Fr) :
    (((e.setBalanceTree bt).setOrderTree ot).setNewNonce nonce).commit.SameNodes
      (((e.setBalanceTree bt').setOrderTree ot).setNewNonce nonce).commit := by
  cases nonce with
  | none =>
    refine ⟨?_, hbt, rfl, rfl, rfl, rfl⟩
    simp only [setNewNonce, commit, setOrderTree, setBalanceTree, hbt.getRoot_eq]
  | some nonce =>
    refine ⟨?_, hbt, rfl, rfl, rfl, rfl⟩
    simp only [setNewNonce, setNonce, commit, setOrderTree, setBalanceTree, hbt.getRoot_eq]

/-- In a Merkle tree, the balances can be written in either way. -/
theorem Batch.sameNodes (hM : e.balanceTree.IsMerkle) (hu : u.InRange lv) (h₁ : e.Batch u e₁)
    (h₂ : e.InSequence u e₂) : e₁.SameNodes e₂ := by
  obtain ⟨bt₁, ot₁, hbt₁, hot₁, rfl⟩ := h₁
  obtain ⟨bt₂, ot₂, hbt₂, hot₂, rfl⟩ := h₂
  obtain ⟨t₁, t₂, ht₁, ht₂, hnodes⟩ := hM.writesInOrder hu 2
  obtain rfl := Except.ok.inj (hbt₁.symm.trans ht₁)
  obtain rfl := Except.ok.inj (hbt₂.symm.trans ht₂)
  -- the orders are written one by one in both ways
  obtain rfl := Except.ok.inj (hot₁.symm.trans hot₂)
  exact .commit_setTrees hnodes e ot₁ u.newNonce

end Entry

open GlobalState

/-- Balances of one account, one after the other. -/
theorem exists_foldlM_setTokenBalanceRaw (h : Holds s L) (he : L a = some e)
    {updates : List (ℕ × Fr)} {bt : Tree lv.balanceLevels}
    (hbt : updates.foldlM (fun t b => t.setValue b.1 b.2) e.balanceTree = .ok bt) :
    ∃ s', updates.foldlM (fun s b => s.setTokenBalanceRaw a b.1 b.2) s = .ok s' ∧
      Holds s' (L.set a (e.setBalanceTree bt)) ∧ s'.accountTree = s.accountTree := by
  refine Exec.exists_foldlM_eq_ok (R := fun s₁ t =>
    Holds s₁ (L.set a (e.setBalanceTree t)) ∧ s₁.accountTree = s.accountTree) ?_ ?_ hbt
  · rintro s₁ t b t' ⟨h₁, htree⟩ hset
    have he₁ := L.set_self a (e.setBalanceTree t)
    have h₂ := h₁.insertBalanceTree he₁ t'
    rw [L.set_idem] at h₂
    exact ⟨_, Exec.assert_bind_eq_ok_iff.2 ⟨h₁.mem_balanceTrees.2 (by rw [he₁]; rfl),
      Exec.bind_eq_ok_iff.2 ⟨t, Exec.unwrap_eq_ok_iff.2 (h₁.lookup_balanceTrees he₁),
        Exec.bind_eq_ok_iff.2 ⟨t', hset, rfl⟩⟩⟩, h₂, htree⟩
  · exact ⟨by rwa [Entry.setBalanceTree, Ledger.set_eq_self he], rfl⟩

/-- Orders of one account, one after the other. -/
theorem exists_foldlM_setOrderLeafHashRaw (h : Holds s L) (he : L a = some e)
    {updates : List (ℕ × Fr)} {ot : Tree lv.orderLevels}
    (hot : updates.foldlM (fun t o => t.setValue o.1 o.2) e.orderTree = .ok ot) :
    ∃ s', updates.foldlM (fun s o => s.setOrderLeafHashRaw a o.1 o.2) s = .ok s' ∧
      Holds s' (L.set a (e.setOrderTree ot)) ∧ s'.accountTree = s.accountTree := by
  refine Exec.exists_foldlM_eq_ok (R := fun s₁ t =>
    Holds s₁ (L.set a (e.setOrderTree t)) ∧ s₁.accountTree = s.accountTree) ?_ ?_ hot
  · rintro s₁ t o t' ⟨h₁, htree⟩ hset
    have he₁ := L.set_self a (e.setOrderTree t)
    have h₂ := h₁.insertOrderTree he₁ t'
    rw [L.set_idem] at h₂
    exact ⟨_, Exec.assert_bind_eq_ok_iff.2 ⟨h₁.mem_orderTrees.2 (by rw [he₁]; rfl),
      Exec.bind_eq_ok_iff.2 ⟨t, Exec.unwrap_eq_ok_iff.2 (h₁.lookup_orderTrees he₁),
        Exec.bind_eq_ok_iff.2 ⟨t', hset, rfl⟩⟩⟩, h₂, htree⟩
  · exact ⟨by rwa [Entry.setOrderTree, Ledger.set_eq_self he], rfl⟩

/-- The account goes through its updates, then its leaf is written. -/
theorem exists_updateSequentially (h : Holds s L) {u : AccountUpdates}
    (he : L u.accountId = some e) (hseq : e.InSequence u e') :
    ∃ s', s.updateSequentially u = .ok s' ∧ Holds s' (L.set u.accountId e') ∧
      s.accountTree.setValue u.accountId e'.state.hash = .ok s'.accountTree := by
  obtain ⟨bt, ot, hbt, hot, rfl⟩ := hseq
  obtain ⟨s₁, hs₁, h₁, htree₁⟩ := exists_foldlM_setTokenBalanceRaw h he hbt
  obtain ⟨s₂, hs₂, h₂, htree₂⟩ := exists_foldlM_setOrderLeafHashRaw h₁ (L.set_self _ _) hot
  rw [L.set_idem] at h₂
  obtain ⟨s₃, hs₃, h₃, htree₃⟩ := exists_updateNewNonce h₂ (L.set_self _ _) u.newNonce
  rw [L.set_idem] at h₃
  have hhash := recalculateAccountStateHash_eq h₃ (L.set_self _ _)
  obtain ⟨-, h₄, htree₄⟩ := recalculateAccountStateHash_spec h₃ (L.set_self _ _) hhash
  rw [L.set_idem] at h₄
  obtain ⟨t, hset⟩ := s.accountTree.exists_setValue (h.lt he) _
  refine ⟨_, ?_, h₄.setAccountTree t, hset⟩
  refine Exec.bind_eq_ok_iff.2 ⟨s₁, hs₁, Exec.bind_eq_ok_iff.2 ⟨s₂, hs₂,
    Exec.bind_eq_ok_iff.2 ⟨s₃, hs₃, Exec.bind_eq_ok_iff.2 ⟨_, hhash, ?_⟩⟩⟩⟩
  refine Exec.bind_eq_ok_iff.2 ⟨t, ?_, rfl⟩
  rwa [htree₄, htree₃, htree₂, htree₁]

/-! ## All the accounts -/

/-- The accounts being different, they are updated independently, and their leaves in the
    account tree are written in order. -/
theorem exists_foldlM_updateSequentially (h : Holds s L) {us : List AccountUpdates}
    (hnd : (us.map AccountUpdates.accountId).Nodup)
    (hus : ∀ u ∈ us, ∃ e, L u.accountId = some e ∧ ∃ e', e.InSequence u e') :
    ∃ (s' : GlobalState lv) (L' : Ledger lv), us.foldlM updateSequentially s = .ok s' ∧
      Holds s' L' ∧ (∀ a, a ∉ us.map AccountUpdates.accountId → L' a = L a) ∧
      (∀ u ∈ us, ∃ e e', L u.accountId = some e ∧ e.InSequence u e' ∧ L' u.accountId = some e') ∧
      ((us.map AccountUpdates.accountId).map fun a => (a, L'.leaf a)).foldlM
        (fun t u => t.setValue u.1 u.2) s.accountTree = .ok s'.accountTree := by
  induction us generalizing s L with
  | nil => exact ⟨s, L, rfl, h, fun _ _ => rfl, List.forall_mem_nil _, rfl⟩
  | cons u us ih =>
    obtain ⟨⟨e, he, e', hseq⟩, hus⟩ := List.forall_mem_cons.1 hus
    rw [List.map_cons, List.nodup_cons] at hnd
    have hne : ∀ v ∈ us, v.accountId ≠ u.accountId := fun v hv heq =>
      hnd.1 (heq ▸ List.mem_map_of_mem hv)
    obtain ⟨s₁, hs₁, h₁, hset⟩ := exists_updateSequentially h he hseq
    obtain ⟨s', L', hs', h', hother, hus', hleaves⟩ :=
      ih h₁ hnd.2 (Ledger.exists_set_of_notMem hnd.1 hus e')
    -- the account is not updated again
    have hu' : L' u.accountId = some e' := by rw [hother _ hnd.1, L.set_self]
    refine ⟨s', L', ?_, h', fun a ha => ?_, fun v hv => ?_, ?_⟩
    · exact Exec.bind_eq_ok_iff.2 ⟨s₁, hs₁, hs'⟩
    · rw [List.map_cons, List.mem_cons, not_or] at ha
      rw [hother a ha.2, L.set_of_ne _ ha.1]
    · rcases List.mem_cons.1 hv with rfl | hv
      · exact ⟨e, e', he, hseq, hu'⟩
      · obtain ⟨f, f', hf, hseq, hf'⟩ := hus' v hv
        rw [L.set_of_ne _ (hne v hv)] at hf
        exact ⟨f, f', hf, hseq, hf'⟩
    · rw [List.map_cons, List.map_cons, List.foldlM_cons, Ledger.leaf_of_some hu']
      exact Exec.bind_eq_ok_iff.2 ⟨_, hset, hleaves⟩

/-- An account can be updated in both ways if its leaves are in range. -/
theorem Entry.exists_batch {u : AccountUpdates} (hM : e.balanceTree.IsMerkle) (hu : u.InRange lv)
    (ho : ∀ o ∈ u.orderUpdates, o.1 < 2 ^ lv.orderLevels) :
    (∃ e', e.Batch u e') ∧ ∃ e', e.InSequence u e' := by
  obtain ⟨bt₁, bt₂, hbt₁, hbt₂, -⟩ := hM.writesInOrder hu 2
  obtain ⟨ot, hot, -⟩ := e.orderTree.exists_foldlM_setValue ho
  exact ⟨⟨_, bt₁, ot, hbt₁, hot, rfl⟩, _, bt₂, ot, hbt₂, hot, rfl⟩

/-- The entries that are reached in the two ways have the same nodes. -/
theorem Ledger.rel_sameNodes {L₁ L₂ : Ledger lv} {us : List AccountUpdates}
    (hM : ∀ a, (L.entry a).balanceTree.IsMerkle) (hu : ∀ u ∈ us, u.InRange lv)
    (hother₁ : ∀ a, a ∉ us.map AccountUpdates.accountId → L₁ a = L a)
    (hus₁ : ∀ u ∈ us, ∃ e e', L u.accountId = some e ∧ e.Batch u e' ∧ L₁ u.accountId = some e')
    (hother₂ : ∀ a, a ∉ us.map AccountUpdates.accountId → L₂ a = L a)
    (hus₂ : ∀ u ∈ us, ∃ e e', L u.accountId = some e ∧ e.InSequence u e' ∧
      L₂ u.accountId = some e') (a : ℕ) : Option.Rel Entry.SameNodes (L₁ a) (L₂ a) := by
  by_cases ha : a ∈ us.map AccountUpdates.accountId
  · obtain ⟨u, hmem, rfl⟩ := List.mem_map.1 ha
    obtain ⟨e, e₁, he, hb, he₁⟩ := hus₁ u hmem
    obtain ⟨f, e₂, hf, hseq, he₂⟩ := hus₂ u hmem
    obtain rfl := Option.some.inj (he.symm.trans hf)
    have hMe : e.balanceTree.IsMerkle := Ledger.entry_of_some he ▸ hM u.accountId
    rw [he₁, he₂]
    exact .some (hb.sameNodes hMe (hu u hmem) hseq)
  · rw [hother₁ a ha, hother₂ a ha]
    exact rel_refl .refl _

/-- In an intact state, a batch on different accounts, in range, leads to the same nodes whether
    the trees are updated in parallel, in any order, or one after the other. -/
theorem GlobalState.Intact.batchUpdate_sameNodes (h : s.Intact) {us : List AccountUpdates}
    (hnd : (us.map AccountUpdates.accountId).Nodup)
    (hmem : ∀ u ∈ us, u.accountId ∈ s.accountStates) (hu : ∀ u ∈ us, u.InRange lv)
    (ho : ∀ u ∈ us, ∀ o ∈ u.orderUpdates, o.1 < 2 ^ lv.orderLevels)
    (schedule schedule' : Shuffle Task) :
    ∃ s₁ s₂, s.batchUpdate schedule us true = .ok s₁ ∧ s.batchUpdate schedule' us false = .ok s₂ ∧
      s₁.SameNodes s₂ := by
  obtain ⟨L, hL, hM⟩ := h.entries
  have hentry : ∀ u ∈ us, ∃ e, L u.accountId = some e ∧ e.balanceTree.IsMerkle := by
    intro u hmem'
    obtain ⟨e, he⟩ := Option.isSome_iff_exists.1 (hL.mem_accountStates.1 (hmem u hmem'))
    exact ⟨e, he, Ledger.entry_of_some he ▸ hM u.accountId⟩
  obtain ⟨s₁, hs₁⟩ := exists_batchUpdate_of hL hnd (fun u hmem' => by
    obtain ⟨e, he, hMe⟩ := hentry u hmem'
    exact ⟨e, he, (Entry.exists_batch hMe (hu u hmem') (ho u hmem')).1⟩) schedule
  obtain ⟨L₁, h₁, hother₁, hus₁, hset₁⟩ := batchUpdate_holds hL hnd hs₁
  obtain ⟨s₂, L₂, hs₂, h₂, hother₂, hus₂, hset₂⟩ := exists_foldlM_updateSequentially hL hnd
    fun u hmem' => by
      obtain ⟨e, he, hMe⟩ := hentry u hmem'
      exact ⟨e, he, (Entry.exists_batch hMe (hu u hmem') (ho u hmem')).2⟩
  refine ⟨s₁, s₂, hs₁, hs₂, ?_⟩
  have hLM := Ledger.rel_sameNodes hM hu hother₁ hus₁ hother₂ hus₂
  -- the same leaves are written in the account tree
  have hleaf : L₁.leaf = L₂.leaf := by
    funext a
    rw [Ledger.leaf, Ledger.leaf, (entry_rel .refl (hLM a)).state]
  have hlt : ∀ v ∈ (us.map AccountUpdates.accountId).map fun a => (a, L₁.leaf a),
      v.1 < 2 ^ lv.accountLevels := by
    intro v hv
    obtain ⟨a, ha, rfl⟩ := List.mem_map.1 hv
    obtain ⟨u, hmem', rfl⟩ := List.mem_map.1 ha
    exact h.lt (hmem u hmem')
  obtain ⟨t₁, t₂, ht₁, ht₂, hnodes⟩ := h.accountTree.writesInOrder hlt 2
  rw [hset₁] at ht₁
  rw [hleaf, hset₂] at ht₂
  obtain rfl := Except.ok.inj ht₁
  obtain rfl := Except.ok.inj ht₂
  exact .of_entries h₁ h₂ hLM hnodes

/-- In every state reached by calls that only write leaves by chunks in range, a batch on
    different accounts, in range, leads to the same nodes in parallel and in sequence. -/
theorem batchUpdate_sameNodes_of_checked
    (hs : Exec.Reachable call (fun _ c => c.Checked lv) (GlobalState.new lv) s)
    {us : List AccountUpdates} (hnd : (us.map AccountUpdates.accountId).Nodup)
    (hmem : ∀ u ∈ us, u.accountId ∈ s.accountStates) (hu : ∀ u ∈ us, u.InRange lv)
    (ho : ∀ u ∈ us, ∀ o ∈ u.orderUpdates, o.1 < 2 ^ lv.orderLevels)
    (schedule schedule' : Shuffle Task) :
    ∃ s₁ s₂, s.batchUpdate schedule us true = .ok s₁ ∧ s.batchUpdate schedule' us false = .ok s₂ ∧
      s₁.SameNodes s₂ :=
  (intact_of_checked hs).batchUpdate_sameNodes hnd hmem hu ho schedule schedule'

end Sequential

/-- Leaves that are written twice, or hold their values already. -/
def repeatedUpdates : List AccountUpdates :=
  [⟨0, [(1, 7), (3, 5), (1, 90)], [(1, 4), (1, 6)], some 9⟩, ⟨1, [(0, 50)], [], none⟩]

attribute [local instance] FluidexCommon.sample in
theorem batchUpdate_sameNodes_of_checked_repeatedUpdates :
    ∃ s, Exec.run GlobalState.call (GlobalState.new Levels.small) (traders.map .op) = .ok s ∧
      ∃ s₁ s₂, s.batchUpdate .reverse repeatedUpdates true = .ok s₁ ∧
        s.batchUpdate .id repeatedUpdates false = .ok s₂ ∧ s₁.SameNodes s₂ := by
  obtain ⟨s, hs⟩ := Exec.exists_eq_ok (do
    let s ← Exec.run GlobalState.call (GlobalState.new Levels.small) (traders.map .op)
    assert (∀ u ∈ repeatedUpdates, u.accountId ∈ s.accountStates) "accounts"
    pure s) (by decide +kernel)
  simp only [Exec.bind_eq_ok_iff, Exec.assert_eq_ok_iff, Exec.pure_eq_ok_iff] at hs
  obtain ⟨s, hrun, _, hmem, rfl⟩ := hs
  refine ⟨s, hrun, batchUpdate_sameNodes_of_checked (Exec.Reachable.init.run ?_ hrun) (by decide)
    hmem ?_ (by decide) .reverse .id⟩
  · simp [traders, GlobalState.Call.Checked]
  · show ∀ u ∈ repeatedUpdates, ∀ b ∈ u.balanceUpdates, b.1 < 2 ^ 2
    decide

/-- A transfer of the token `4`, whose index is that of an inner node of the balance trees. -/
def tokenFour : List GlobalState.Call :=
  traders.map .op ++ [.op (.transfer .id ⟨0, 1, 4, 1, 0, .default, none⟩ none)]

/-- The balance that the account has already. -/
def sameBalance : List AccountUpdates := [⟨0, [(1, 90)], [], none⟩]

attribute [local instance] FluidexCommon.sample in
/-- The overwritten node is recomputed in parallel, and kept in sequence. -/
theorem not_sameNodes_tokenFour :
    ∃ s, Exec.run GlobalState.call (GlobalState.new Levels.small) tokenFour = .ok s ∧
      (sameBalance.map AccountUpdates.accountId).Nodup ∧
      (∀ u ∈ sameBalance, u.accountId ∈ s.accountStates ∧ u.InRange Levels.small ∧
        ∀ o ∈ u.orderUpdates, o.1 < 2 ^ Levels.small.orderLevels) ∧
      ¬∃ s₁ s₂, s.batchUpdate .id sameBalance true = .ok s₁ ∧
        s.batchUpdate .id sameBalance false = .ok s₂ ∧ s₁.SameNodes s₂ := by
  obtain ⟨⟨s, s₁, s₂⟩, hs⟩ := Exec.exists_eq_ok (do
    let s ← Exec.run GlobalState.call (GlobalState.new Levels.small) tokenFour
    assert (0 ∈ s.accountStates) "account"
    let s₁ ← s.batchUpdate .id sameBalance true
    let s₂ ← s.batchUpdate .id sameBalance false
    assert (s₁.root ≠ s₂.root) "roots"
    pure (s, s₁, s₂)) (by decide +kernel)
  simp only [Exec.bind_eq_ok_iff, Exec.assert_eq_ok_iff, Exec.pure_eq_ok_iff, Prod.mk.injEq] at hs
  obtain ⟨s, hrun, _, hmem, s₁, hs₁, s₂, hs₂, _, hroot, rfl, rfl, rfl⟩ := hs
  refine ⟨s, hrun, by decide, ?_, ?_⟩
  · refine List.forall_mem_singleton.2 ⟨hmem, ?_, List.forall_mem_nil _⟩
    exact List.forall_mem_singleton.2 (show 1 < 2 ^ 2 by decide)
  · rintro ⟨t₁, t₂, ht₁, ht₂, hnodes⟩
    obtain rfl := Except.ok.inj (hs₁.symm.trans ht₁)
    obtain rfl := Except.ok.inj (hs₂.symm.trans ht₂)
    exact hroot hnodes.accountTree.getRoot_eq

end Rollup
