import Mathlib.Data.List.Permutation
import Rollup.Ledger.Ops

/-!
# Batches

What `batchUpdate` does to the ledger, whatever the order of its parallel tasks.
The tasks of one account touch its trees only, and tasks on different trees
commute: what happens to a tree is decided by the updates made to it, in the
order in which its own tasks run (`runTasks_spec`). If the accounts of the batch
are different, there is only one task for each tree, so the schedule does not
matter (`batchUpdate_spec`).
-/

namespace Rollup

/-! ## Tasks -/

/-- The updates a task makes to the balance tree of an account. -/
def Task.balanceOf (a : ℕ) : Task → Option (List (ℕ × Fr) × ℕ)
  | .balance b updates parallel => if b = a then some (updates, parallel) else none
  | .order _ _ _ => none

/-- The updates a task makes to the order tree of an account. -/
def Task.orderOf (a : ℕ) : Task → Option (List (ℕ × Fr) × ℕ)
  | .balance _ _ _ => none
  | .order b updates parallel => if b = a then some (updates, parallel) else none

/-- The account whose tree the task updates. -/
def Task.accountId : Task → ℕ
  | .balance a _ _ => a
  | .order a _ _ => a

variable [FluidexCommon]

/-- Several updates of a tree, one after the other. -/
def Tree.updateAll {h : ℕ} (t : Tree h) (updates : List (List (ℕ × Fr) × ℕ)) :
    Except Panic (Tree h) :=
  updates.foldlM (fun t u => t.setValueParallel u.1 u.2) t

theorem Tree.updateAll_append {h : ℕ} {t t₁ t₂ : Tree h} {us vs : List (List (ℕ × Fr) × ℕ)}
    (h₁ : t.updateAll us = .ok t₁) (h₂ : t₁.updateAll vs = .ok t₂) :
    t.updateAll (us ++ vs) = .ok t₂ := by
  rw [updateAll, List.foldlM_append, ← updateAll, h₁]
  exact h₂

variable {lv : Levels} {s s' : GlobalState lv} {L : Ledger lv} {a : ℕ} {e e' e'' : Entry lv}

/-- Running tasks on the trees of the account `a` leads from `e` to `e'`. -/
def Entry.RunTasks (e : Entry lv) (a : ℕ) (tasks : List Task) (e' : Entry lv) : Prop :=
  ∃ bt ot, e.balanceTree.updateAll (tasks.filterMap (Task.balanceOf a)) = .ok bt ∧
    e.orderTree.updateAll (tasks.filterMap (Task.orderOf a)) = .ok ot ∧
    e' = (e.setBalanceTree bt).setOrderTree ot

theorem Entry.RunTasks.nil : e.RunTasks a [] e := ⟨_, _, rfl, rfl, rfl⟩

theorem Entry.RunTasks.cons {task : Task} {tasks : List Task} (h : e.RunTasks a [task] e')
    (h' : e'.RunTasks a tasks e'') : e.RunTasks a (task :: tasks) e'' := by
  obtain ⟨bt, ot, hbt, hot, rfl⟩ := h
  obtain ⟨bt', ot', hbt', hot', rfl⟩ := h'
  rw [← List.singleton_append]
  refine ⟨bt', ot', ?_, ?_, rfl⟩
  · rw [List.filterMap_append]
    exact Tree.updateAll_append hbt hbt'
  · rw [List.filterMap_append]
    exact Tree.updateAll_append hot hot'

/-- The tasks of other accounts do not matter. -/
theorem Entry.RunTasks.cons_of_ne {task : Task} {tasks : List Task} (hne : task.accountId ≠ a)
    (h : e.RunTasks a tasks e') : e.RunTasks a (task :: tasks) e' := by
  have hb : task.balanceOf a = none := by cases task <;> simp_all [Task.balanceOf, Task.accountId]
  have ho : task.orderOf a = none := by cases task <;> simp_all [Task.orderOf, Task.accountId]
  simpa only [Entry.RunTasks, List.filterMap_cons_none hb, List.filterMap_cons_none ho] using h

theorem runTask_spec (h : Holds s L) {task : Task} (hr : s.runTask task = .ok s') :
    s'.accountTree = s.accountTree ∧ ∃ e e', L task.accountId = some e ∧
      e.RunTasks task.accountId [task] e' ∧ Holds s' (L.set task.accountId e') := by
  cases task with
  | balance a updates parallel =>
    simp only [GlobalState.runTask, Exec.bind_eq_ok_iff, Exec.unwrap_eq_ok_iff,
      Exec.pure_eq_ok_iff] at hr
    obtain ⟨t, ht, t', ht', rfl⟩ := hr
    rw [h.balanceTrees, Option.map_eq_some_iff] at ht
    obtain ⟨e, he, rfl⟩ := ht
    refine ⟨rfl, e, _, he, ⟨t', e.orderTree, ?_, ?_, rfl⟩, h.insertBalanceTree he t'⟩
    · simpa [Task.balanceOf, Task.accountId, Tree.updateAll] using ht'
    · rfl
  | order a updates parallel =>
    simp only [GlobalState.runTask, Exec.bind_eq_ok_iff, Exec.unwrap_eq_ok_iff,
      Exec.pure_eq_ok_iff] at hr
    obtain ⟨t, ht, t', ht', rfl⟩ := hr
    rw [h.orderTrees, Option.map_eq_some_iff] at ht
    obtain ⟨e, he, rfl⟩ := ht
    refine ⟨rfl, e, _, he, ⟨e.balanceTree, t', ?_, ?_, rfl⟩, h.insertOrderTree he t'⟩
    · rfl
    · simpa [Task.orderOf, Task.accountId, Tree.updateAll] using ht'

/-- Every account goes through its own tasks. -/
theorem runTasks_spec (h : Holds s L) {tasks : List Task} (hr : s.runTasks tasks = .ok s') :
    s'.accountTree = s.accountTree ∧ ∃ L' : Ledger lv, Holds s' L' ∧
      (∀ a, L a = none → L' a = none) ∧
      ∀ a e, L a = some e → ∃ e', L' a = some e' ∧ e.RunTasks a tasks e' := by
  induction tasks generalizing s L with
  | nil =>
    simp only [GlobalState.runTasks, List.foldlM_nil, Exec.pure_eq_ok_iff] at hr
    exact hr ▸ ⟨rfl, L, h, fun _ hn => hn, fun a e he => ⟨e, he, .nil⟩⟩
  | cons task tasks ih =>
    simp only [GlobalState.runTasks, List.foldlM_cons, Exec.bind_eq_ok_iff] at hr
    obtain ⟨s₁, h₁, hr⟩ := hr
    obtain ⟨htree₁, e, e', he, hrun, h₁⟩ := runTask_spec h h₁
    obtain ⟨htree, L', h', hnone, hsome⟩ := ih h₁ hr
    refine ⟨htree.trans htree₁, L', h', fun a hn => hnone a ?_, fun a e₀ he₀ => ?_⟩
    · -- an account that does not exist has no task
      rwa [L.set_of_ne]
      rintro rfl
      rw [hn] at he
      cases he
    · -- the task is one of the account, or leaves it as it is
      rcases eq_or_ne a task.accountId with rfl | hne
      · obtain rfl := Option.some.inj (he.symm.trans he₀)
        obtain ⟨e'', he'', hrun'⟩ := hsome _ e' (L.set_self _ e')
        exact ⟨e'', he'', hrun.cons hrun'⟩
      · obtain ⟨e'', he'', hrun'⟩ := hsome a e₀ (by rwa [L.set_of_ne e' hne])
        exact ⟨e'', he'', hrun'.cons_of_ne hne.symm⟩

/-! ## Hashes -/

/-- The nonce changes if there is a new one. -/
def Entry.setNewNonce (e : Entry lv) : Option Fr → Entry lv
  | some nonce => e.setNonce nonce
  | none => e

theorem updateAccountStates_cons (h : Holds s L) {u : AccountUpdates} {us : List AccountUpdates}
    (he : L u.accountId = some e) {hashes : List (ℕ × Fr)}
    (hr : s.updateAccountStates (u :: us) = .ok (hashes, s')) :
    ∃ s₁ hashes', Holds s₁ (L.set u.accountId (e.setNewNonce u.newNonce).commit) ∧
      s₁.accountTree = s.accountTree ∧ s₁.updateAccountStates us = .ok (hashes', s') ∧
      hashes = (u.accountId, (e.setNewNonce u.newNonce).commit.state.hash) :: hashes' := by
  simp only [GlobalState.updateAccountStates, Exec.bind_eq_ok_iff, Exec.pure_eq_ok_iff,
    Prod.exists, Prod.mk.injEq] at hr
  obtain ⟨s₁, hn, hash, s₂, hre, hashes', s₃, hr, rfl, rfl⟩ := hr
  -- the nonce is only updated if there is a new one
  have h₁ : Holds s₁ (L.set u.accountId (e.setNewNonce u.newNonce)) ∧
      s₁.accountTree = s.accountTree := by
    cases hnonce : u.newNonce with
    | some nonce =>
      rw [hnonce] at hn
      exact updateNonce_spec h he hn
    | none =>
      rw [hnonce, GlobalState.updateNewNonce, Exec.pure_eq_ok_iff] at hn
      rw [Entry.setNewNonce, Ledger.set_eq_self he, ← hn]
      exact ⟨h, rfl⟩
  obtain ⟨rfl, h₂, htree⟩ := recalculateAccountStateHash_spec h₁.1 (L.set_self _ _) hre
  rw [L.set_idem] at h₂
  exact ⟨s₂, hashes', h₂, htree.trans h₁.2, hr, rfl⟩

/-- The accounts being different, each of them is committed to once, in its final state. -/
theorem updateAccountStates_spec (h : Holds s L) {us : List AccountUpdates}
    (hnd : (us.map AccountUpdates.accountId).Nodup) (hsome : ∀ u ∈ us, (L u.accountId).isSome)
    {hashes : List (ℕ × Fr)} (hr : s.updateAccountStates us = .ok (hashes, s')) :
    s'.accountTree = s.accountTree ∧ ∃ L' : Ledger lv, Holds s' L' ∧
      (∀ a, a ∉ us.map AccountUpdates.accountId → L' a = L a) ∧
      (∀ u ∈ us, ∀ e, L u.accountId = some e →
        L' u.accountId = some (e.setNewNonce u.newNonce).commit) ∧
      hashes = (us.map AccountUpdates.accountId).map fun a => (a, L'.leaf a) := by
  induction us generalizing s L hashes with
  | nil =>
    simp only [GlobalState.updateAccountStates, Exec.pure_eq_ok_iff, Prod.mk.injEq] at hr
    obtain ⟨rfl, rfl⟩ := hr
    exact ⟨rfl, L, h, fun _ _ => rfl, by simp, rfl⟩
  | cons u us ih =>
    obtain ⟨e, he⟩ := Option.isSome_iff_exists.1 (hsome u List.mem_cons_self)
    obtain ⟨s₁, hashes', h₁, htree₁, hr', rfl⟩ := updateAccountStates_cons h he hr
    rw [List.map_cons, List.nodup_cons] at hnd
    -- The accounts are different, so that the rest of the list leaves this one as it is.
    have hne : ∀ v ∈ us, v.accountId ≠ u.accountId := fun v hv hvu =>
      hnd.1 (hvu ▸ List.mem_map_of_mem hv)
    obtain ⟨htree, L', h', hother, hus, rfl⟩ := ih h₁ hnd.2
      (fun v hv => by rw [L.set_of_ne _ (hne v hv)]; exact hsome v (List.mem_cons_of_mem u hv)) hr'
    have hu : L' u.accountId = some (e.setNewNonce u.newNonce).commit := by
      rw [hother _ hnd.1, L.set_self]
    refine ⟨htree.trans htree₁, L', h', fun a ha => ?_, fun v hv e' he' => ?_, ?_⟩
    · rw [List.map_cons, List.mem_cons, not_or] at ha
      rw [hother a ha.2, L.set_of_ne _ ha.1]
    · rcases List.mem_cons.1 hv with rfl | hv
      · rw [hu, Option.some.inj (he.symm.trans he')]
      · exact hus v hv e' (by rwa [L.set_of_ne _ (hne v hv)])
    · rw [List.map_cons, List.map_cons, Ledger.leaf_of_some hu]

omit [FluidexCommon] in
/-- Writing at some indices the values a function has there. -/
theorem writes_map (ids : List ℕ) (f leaf : ℕ → Fr) :
    writes (ids.map fun a => (a, f a)) leaf = fun a => if a ∈ ids then f a else leaf a := by
  induction ids generalizing leaf with
  | nil => simp
  | cons b ids ih =>
    rw [List.map_cons, writes_cons, ih]
    funext a
    rcases eq_or_ne a b with rfl | hne
    · simp
    · simp [hne]

/-! ## Batches -/

/-- A batch leads from `e` to `e'`. -/
def Entry.Batch (e : Entry lv) (u : AccountUpdates) (e' : Entry lv) : Prop :=
  ∃ bt ot, e.balanceTree.setValueParallel u.balanceUpdates 2 = .ok bt ∧
    e.orderTree.setValueParallel u.orderUpdates 1 = .ok ot ∧
    e' = (((e.setBalanceTree bt).setOrderTree ot).setNewNonce u.newNonce).commit

omit [FluidexCommon] in
theorem checkTrees_spec (h : Holds s L) {us : List AccountUpdates} (hr : s.checkTrees us = .ok ()) :
    ∀ u ∈ us, (L u.accountId).isSome := by
  induction us with
  | nil => simp
  | cons u us ih =>
    obtain ⟨hmem, hr⟩ := Exec.assert_bind_eq_ok_iff.1 hr
    obtain ⟨-, hr⟩ := Exec.assert_bind_eq_ok_iff.1 hr
    intro v hv
    rcases List.mem_cons.1 hv with rfl | hv
    · exact h.mem_balanceTrees.1 hmem
    · exact ih hr v hv

omit [FluidexCommon] in
/-- The tasks on the trees of an account are those of its updates, in order. -/
theorem filterMap_tasks (us : List AccountUpdates) (a : ℕ) :
    (us.flatMap AccountUpdates.tasks).filterMap (Task.balanceOf a) =
        (us.filter fun u => u.accountId = a).map (fun u => (u.balanceUpdates, 2)) ∧
      (us.flatMap AccountUpdates.tasks).filterMap (Task.orderOf a) =
        (us.filter fun u => u.accountId = a).map (fun u => (u.orderUpdates, 1)) := by
  induction us with
  | nil => exact ⟨rfl, rfl⟩
  | cons u us ih =>
    rw [List.flatMap_cons, List.filterMap_append, List.filterMap_append, ih.1, ih.2,
      List.filter_cons]
    by_cases hu : u.accountId = a <;>
      simp [AccountUpdates.tasks, List.filterMap_cons, Task.balanceOf, Task.orderOf, hu]

omit [FluidexCommon] in
theorem filter_accountId {us : List AccountUpdates}
    (hnd : (us.map AccountUpdates.accountId).Nodup) {u : AccountUpdates} (hu : u ∈ us) :
    (us.filter fun v => v.accountId = u.accountId) = [u] := by
  induction us with
  | nil => cases hu
  | cons v us ih =>
    rw [List.map_cons, List.nodup_cons] at hnd
    rw [List.filter_cons]
    rcases List.mem_cons.1 hu with rfl | hu
    · have hnone : (us.filter fun v => v.accountId = u.accountId) = [] := by
        refine List.filter_eq_nil_iff.2 fun v hv hvu => hnd.1 ?_
        rw [← of_decide_eq_true hvu]
        exact List.mem_map_of_mem hv
      simp [hnone]
    · have hne : v.accountId ≠ u.accountId := fun h => hnd.1 (h ▸ List.mem_map_of_mem hu)
      simp [hne, ih hnd.2 hu]

theorem Entry.RunTasks.of_perm {tasks tasks' : List Task} (hp : tasks'.Perm tasks)
    {bs os : List (ℕ × Fr) × ℕ} (hb : tasks.filterMap (Task.balanceOf a) = [bs])
    (ho : tasks.filterMap (Task.orderOf a) = [os]) (h : e.RunTasks a tasks' e') :
    ∃ bt ot, e.balanceTree.setValueParallel bs.1 bs.2 = .ok bt ∧
      e.orderTree.setValueParallel os.1 os.2 = .ok ot ∧
      e' = (e.setBalanceTree bt).setOrderTree ot := by
  obtain ⟨bt, ot, hbt, hot, rfl⟩ := h
  have hb' : tasks'.filterMap (Task.balanceOf a) = [bs] :=
    List.perm_singleton.1 (hb ▸ hp.filterMap _)
  have ho' : tasks'.filterMap (Task.orderOf a) = [os] :=
    List.perm_singleton.1 (ho ▸ hp.filterMap _)
  rw [hb'] at hbt
  rw [ho'] at hot
  exact ⟨bt, ot, by simpa [Tree.updateAll] using hbt, by simpa [Tree.updateAll] using hot, rfl⟩

theorem Entry.RunTasks.eq_self {tasks tasks' : List Task} (hp : tasks'.Perm tasks)
    (hb : tasks.filterMap (Task.balanceOf a) = []) (ho : tasks.filterMap (Task.orderOf a) = [])
    (h : e.RunTasks a tasks' e') : e' = e := by
  obtain ⟨bt, ot, hbt, hot, rfl⟩ := h
  have hb' : tasks'.filterMap (Task.balanceOf a) = [] := List.perm_nil.1 (hb ▸ hp.filterMap _)
  have ho' : tasks'.filterMap (Task.orderOf a) = [] := List.perm_nil.1 (ho ▸ hp.filterMap _)
  rw [hb'] at hbt
  rw [ho'] at hot
  obtain rfl := Except.ok.inj hbt
  obtain rfl := Except.ok.inj hot
  rfl

/-- Committing to the accounts after a batch. -/
theorem setAccountTree_spec {L' : Ledger lv} (h : Shows s L) (h' : Holds s' L') (ids : List ℕ)
    (hids : ∀ a ∈ ids, (L' a).isSome) (hother : ∀ a, a ∉ ids → L' a = L a)
    (hset : s.accountTree.setValueParallel (ids.map fun a => (a, L'.leaf a)) 2 =
      .ok s'.accountTree) : Shows s' L' := by
  have hstored := Tree.stored_foldl_put (ids.map fun a => (a, L'.leaf a)) s.accountTree
  have hput := Except.ok.inj ((Tree.setValueParallel_eq _ _ (by decide)).symm.trans hset)
  refine ⟨h', ?_, ?_, fun a ha hmem => ?_⟩
  · refine (h.accountTree.setValueParallel ?_ hset).congr fun a _ => ?_
    · intro u hu
      obtain ⟨a, ha, rfl⟩ := List.mem_map.1 hu
      obtain ⟨e, he⟩ := Option.isSome_iff_exists.1 (hids a ha)
      exact h'.lt he
    · rw [writes_map]
      beta_reduce
      split
      · rfl
      · next ha => rw [Ledger.leaf, Ledger.leaf, Ledger.entry, Ledger.entry, hother a ha]
  · rw [← hput]
    exact hstored.1.trans h.committed.defaultNodes
  · rw [← hput] at hmem
    -- a leaf that is stored was just written, or stored before
    rcases hstored.2 a ha hmem with hids' | hmem
    · rw [List.map_map] at hids'
      exact hids a (by simpa using hids')
    · by_cases hids' : a ∈ ids
      · exact hids a hids'
      · rw [hother a hids']
        exact h.committed.exists_of_stored a ha hmem

/-- What a batch does: its tasks update the trees of its accounts, then the states are
    updated, and the account tree. -/
theorem batchUpdate_cases (h : Holds s L) {schedule : Shuffle Task} {us : List AccountUpdates}
    (hr : s.batchUpdate schedule us true = .ok s') :
    (∀ u ∈ us, (L u.accountId).isSome) ∧
      ∃ (s₁ s₂ : GlobalState lv) (L₁ : Ledger lv) (hashes : List (ℕ × Fr))
        (t : Tree lv.accountLevels),
        s₁.accountTree = s.accountTree ∧ Holds s₁ L₁ ∧
        (∀ a, a ∉ us.map AccountUpdates.accountId → L₁ a = L a) ∧
        (∀ a e, L a = some e → ∃ e₁, L₁ a = some e₁ ∧
          e.RunTasks a (schedule.order (us.flatMap AccountUpdates.tasks)) e₁) ∧
        s₁.updateAccountStates us = .ok (hashes, s₂) ∧
        s₂.accountTree.setValueParallel hashes 2 = .ok t ∧ s' = { s₂ with accountTree := t } := by
  simp only [GlobalState.batchUpdate, if_true, Exec.bind_eq_ok_iff, Exec.pure_eq_ok_iff,
    Prod.exists] at hr
  obtain ⟨_, hcheck, s₁, htasks, hashes, s₂, hstates, t, hset, rfl⟩ := hr
  obtain ⟨htree₁, L₁, h₁, hnone₁, hsome₁⟩ := runTasks_spec h htasks
  refine ⟨checkTrees_spec h hcheck, s₁, s₂, L₁, hashes, t, htree₁, h₁, fun a ha => ?_,
    hsome₁, hstates, hset, rfl⟩
  cases he : L a with
  | none => exact hnone₁ a he
  | some e =>
    obtain ⟨e₁, he₁, hrun⟩ := hsome₁ a e he
    -- no task is for an account that is not in the batch
    have hnil : (us.filter fun u => u.accountId = a) = [] :=
      List.filter_eq_nil_iff.2 fun u hu hua =>
        ha (of_decide_eq_true hua ▸ List.mem_map_of_mem hu)
    have htasks := filterMap_tasks us a
    rw [hnil] at htasks
    rw [he₁, hrun.eq_self (schedule.perm _) htasks.1 htasks.2]

/-- The accounts of the batch being different, they are updated independently,
    whatever the schedule, and their leaves in the account tree are written in order. -/
theorem batchUpdate_holds (h : Holds s L) {schedule : Shuffle Task} {us : List AccountUpdates}
    (hnd : (us.map AccountUpdates.accountId).Nodup)
    (hr : s.batchUpdate schedule us true = .ok s') :
    ∃ L' : Ledger lv, Holds s' L' ∧
      (∀ a, a ∉ us.map AccountUpdates.accountId → L' a = L a) ∧
      (∀ u ∈ us, ∃ e e', L u.accountId = some e ∧ e.Batch u e' ∧ L' u.accountId = some e') ∧
      s.accountTree.setValueParallel
        ((us.map AccountUpdates.accountId).map fun a => (a, L'.leaf a)) 2 = .ok s'.accountTree := by
  obtain ⟨hsome, s₁, s₂, L₁, hashes, t, htree₁, h₁, hother₁, hsome₁, hstates, hset, rfl⟩ :=
    batchUpdate_cases h hr
  -- The trees: every account of the batch goes through its two tasks.
  have hus₁ : ∀ u ∈ us, ∃ e bt ot, L u.accountId = some e ∧
      e.balanceTree.setValueParallel u.balanceUpdates 2 = .ok bt ∧
      e.orderTree.setValueParallel u.orderUpdates 1 = .ok ot ∧
      L₁ u.accountId = some ((e.setBalanceTree bt).setOrderTree ot) := by
    intro u hu
    obtain ⟨e, he⟩ := Option.isSome_iff_exists.1 (hsome u hu)
    obtain ⟨e₁, he₁, hrun⟩ := hsome₁ _ e he
    have htasks := filterMap_tasks us u.accountId
    rw [filter_accountId hnd hu] at htasks
    obtain ⟨bt, ot, hbt, hot, rfl⟩ := hrun.of_perm (schedule.perm _) htasks.1 htasks.2
    exact ⟨e, bt, ot, he, hbt, hot, he₁⟩
  -- The states, then the account tree.
  obtain ⟨htree₂, L', h', hother', hus', rfl⟩ := updateAccountStates_spec h₁ hnd
    (fun u hu => by obtain ⟨e, bt, ot, -, -, -, he₁⟩ := hus₁ u hu; rw [he₁]; rfl) hstates
  have hus : ∀ u ∈ us, ∃ e e', L u.accountId = some e ∧ e.Batch u e' ∧ L' u.accountId = some e' := by
    intro u hu
    obtain ⟨e, bt, ot, he, hbt, hot, he₁⟩ := hus₁ u hu
    exact ⟨e, _, he, ⟨bt, ot, hbt, hot, rfl⟩, hus' u hu _ he₁⟩
  exact ⟨L', h'.setAccountTree t, fun a ha => (hother' a ha).trans (hother₁ a ha), hus,
    htree₁ ▸ htree₂ ▸ hset⟩

theorem batchUpdate_spec (h : Shows s L) {schedule : Shuffle Task} {us : List AccountUpdates}
    (hnd : (us.map AccountUpdates.accountId).Nodup)
    (hr : s.batchUpdate schedule us true = .ok s') :
    ∃ L' : Ledger lv, Shows s' L' ∧
      (∀ a, a ∉ us.map AccountUpdates.accountId → L' a = L a) ∧
      ∀ u ∈ us, ∃ e e', L u.accountId = some e ∧ e.Batch u e' ∧ L' u.accountId = some e' := by
  obtain ⟨L', h', hother, hus, hset⟩ := batchUpdate_holds h.toHolds hnd hr
  refine ⟨L', setAccountTree_spec h h' _ (fun a ha => ?_) hother hset, hother, hus⟩
  obtain ⟨u, hu, rfl⟩ := List.mem_map.1 ha
  obtain ⟨e, e', -, -, he'⟩ := hus u hu
  rw [he']
  rfl

theorem batchUpdate_pair_spec (h : Shows s L) {schedule : Shuffle Task} {u v : AccountUpdates}
    (hne : u.accountId ≠ v.accountId) (hr : s.batchUpdate schedule [u, v] true = .ok s') :
    ∃ e f e' f', L u.accountId = some e ∧ L v.accountId = some f ∧ e.Batch u e' ∧ f.Batch v f' ∧
      Shows s' ((L.set u.accountId e').set v.accountId f') := by
  obtain ⟨L', h', hother, hus⟩ := batchUpdate_spec h (by simpa using hne) hr
  obtain ⟨e, e', he, hbe, he'⟩ := hus u (by simp)
  obtain ⟨f, f', hf, hbf, hf'⟩ := hus v (by simp)
  have hL : L' = (L.set u.accountId e').set v.accountId f' := by
    funext a
    rw [Ledger.set_apply, Ledger.set_apply]
    split
    · next ha => rw [ha, hf']
    · split
      · next ha => rw [ha, he']
      · exact hother a (by simp_all)
  exact ⟨e, f, e', f', he, hf, hbe, hbf, hL ▸ h'⟩

/-- A batch with two updates of the balances of one account makes them in either order. -/
theorem batchUpdate_self_spec (h : Shows s L) {schedule : Shuffle Task} {u v : AccountUpdates}
    (hu : u.accountId = a) (hv : v.accountId = a) (huo : u.orderUpdates = [])
    (hvo : v.orderUpdates = []) (hvn : v.newNonce = none)
    (hr : s.batchUpdate schedule [u, v] true = .ok s') :
    ∃ e bt, L a = some e ∧
      (e.balanceTree.updateAll [(u.balanceUpdates, 2), (v.balanceUpdates, 2)] = .ok bt ∨
        e.balanceTree.updateAll [(v.balanceUpdates, 2), (u.balanceUpdates, 2)] = .ok bt) ∧
      Shows s' (L.set a ((e.setBalanceTree bt).setNewNonce u.newNonce).commit) := by
  obtain ⟨hsome, s₁, s₂, L₁, hashes, t, htree₁, h₁, hother₁, hsome₁, hstates, hset, rfl⟩ :=
    batchUpdate_cases h.toHolds hr
  obtain ⟨e, he⟩ := Option.isSome_iff_exists.1 (hu ▸ hsome u List.mem_cons_self)
  obtain ⟨e₁, he₁, bt, ot, hbt, hot, rfl⟩ := hsome₁ a e he
  have hp := schedule.perm ([u, v].flatMap AccountUpdates.tasks)
  have htasks := filterMap_tasks [u, v] a
  simp only [List.filter_cons, hu, hv, decide_true, if_true, List.filter_nil, List.map_cons,
    List.map_nil, huo, hvo] at htasks
  have hpo := hp.filterMap (Task.orderOf a)
  rw [htasks.2, List.perm_pair, or_self] at hpo
  rw [hpo] at hot
  obtain rfl := Except.ok.inj hot
  have hpb := hp.filterMap (Task.balanceOf a)
  rw [htasks.1, List.perm_pair] at hpb
  -- The account is committed to twice, in the same state.
  rw [← hu] at he₁
  obtain ⟨s₃, hashes', h₃, htree₃, hstates', rfl⟩ := updateAccountStates_cons h₁ he₁ hstates
  rw [hu] at h₃
  obtain ⟨s₄, hashes'', h₄, htree₄, hstates'', rfl⟩ :=
    updateAccountStates_cons h₃ (by rw [hv, L₁.set_self]) hstates'
  simp only [GlobalState.updateAccountStates, Exec.pure_eq_ok_iff, Prod.mk.injEq] at hstates''
  obtain ⟨rfl, rfl⟩ := hstates''
  rw [hv, L₁.set_idem, hvn] at h₄
  have hL : L₁.set a ((e.setBalanceTree bt).setNewNonce u.newNonce).commit =
      L.set a ((e.setBalanceTree bt).setNewNonce u.newNonce).commit := by
    funext b
    rw [Ledger.set_apply, Ledger.set_apply]
    split
    · rfl
    · next hb => exact hother₁ b (by simpa [hu, hv] using hb)
  have h₄ : Holds s₄ (L.set a ((e.setBalanceTree bt).setNewNonce u.newNonce).commit) := hL ▸ h₄
  have hbt' : e.balanceTree.updateAll [(u.balanceUpdates, 2), (v.balanceUpdates, 2)] = .ok bt ∨
      e.balanceTree.updateAll [(v.balanceUpdates, 2), (u.balanceUpdates, 2)] = .ok bt := by
    rcases hpb with hpb | hpb
    · exact .inl (hpb ▸ hbt)
    · exact .inr (hpb ▸ hbt)
  refine ⟨e, bt, he, hbt', setAccountTree_spec h (h₄.setAccountTree t) [a, a] ?_ ?_ ?_⟩
  · simp
  · exact fun b hb => L.set_of_ne _ (by simpa using hb)
  · rw [htree₄, htree₃, htree₁, hu, hv, hvn] at hset
    rw [List.map_cons, List.map_cons, List.map_nil, Ledger.leaf_of_some (L.set_self a _)]
    exact hset

end Rollup
