import Rollup.Ledger.Steps
import Rollup.Lib.Maps

/-!
# New accounts

The id of a new account is the number of the accounts, while a key or a balance may be given to
an account with any id. So that id may be the one of an account that exists, which is then
returned as if it were new (`createsFresh_iff`): there is a new account unless the number of
the accounts is the id of one of them (`GlobalState.NextIsFree`).
-/

namespace Rollup

section Creating

variable [FluidexCommon] {lv : Levels} {s s' : GlobalState lv} {L : Ledger lv} {n : Node lv}

namespace GlobalState

/-- The account `a`, which did not exist, is created with an empty state; the others are kept. -/
structure Creates (s : GlobalState lv) (a nextOrderId : ℕ) (s' : GlobalState lv) : Prop where
  lt : a < 2 ^ lv.accountLevels
  fresh : a ∉ s.accountStates
  state : s'.accountStates.lookup a = some lv.emptyAccount
  balanceTree : s'.balanceTrees.lookup a = some lv.emptyBalanceTree
  orderTree : s'.orderTrees.lookup a = some lv.emptyOrderTree
  orders : s'.orderStates.lookup a = some ∅
  nextOrderPosition : s'.nextOrderPositions.lookup a = some nextOrderId
  orderPos : ∀ orderId, s'.getOrderPosById a orderId = none
  others : ∀ b, b ≠ a → s'.accountStates.lookup b = s.accountStates.lookup b

/-- An account is created, unless all the ids are in use: then nothing changes. -/
def CreatesFresh (s : GlobalState lv) (nextOrderId : ℕ) : Prop :=
  ∃ r s', s.createNewAccount nextOrderId = .ok (r, s') ∧
    (∀ e, r = .error e → s' = s ∧ ∀ a < 2 ^ lv.accountLevels, a ∈ s.accountStates) ∧
    ∀ a, r = .ok a → s.Creates a nextOrderId s'

/-- The number of the accounts is not the id of one of them. -/
def NextIsFree (s : GlobalState lv) : Prop := s.balanceTrees.keys.length ∉ s.accountStates

instance (s : GlobalState lv) : Decidable s.NextIsFree :=
  inferInstanceAs (Decidable (s.balanceTrees.keys.length ∉ s.accountStates))

end GlobalState

/-! ## The number of the accounts -/

omit [FluidexCommon] in
/-- The ids are those below `2 ^ accountLevels`. -/
theorem Holds.lt_of_mem (h : Holds s L) {a : ℕ} (ha : a ∈ s.balanceTrees) :
    a < 2 ^ lv.accountLevels := by
  obtain ⟨e, he⟩ := Option.isSome_iff_exists.1 (h.mem_balanceTrees.1 ha)
  exact h.lt he

omit [FluidexCommon] in
theorem Holds.length_keys_le (h : Holds s L) :
    s.balanceTrees.keys.length ≤ 2 ^ lv.accountLevels :=
  Maps.Filled.length_keys_le fun _ => h.lt_of_mem

omit [FluidexCommon] in
/-- With as many accounts as ids, every id is in use. -/
theorem Holds.mem_of_length_keys (h : Holds s L)
    (hle : 2 ^ lv.accountLevels ≤ s.balanceTrees.keys.length) {a : ℕ}
    (ha : a < 2 ^ lv.accountLevels) : a ∈ s.accountStates := by
  have hfilled : Maps.Filled s.balanceTrees := .of_lt fun b hb => (h.lt_of_mem hb).trans_le hle
  have hmem : a ∈ s.balanceTrees := (hfilled a).2 (ha.trans_le hle)
  exact h.mem_accountStates.2 (h.mem_balanceTrees.1 hmem)

omit [FluidexCommon] in
theorem Holds.getNextAccountId_eq (h : Holds s L) : s.getNextAccountId =
    if 2 ^ lv.accountLevels ≤ s.balanceTrees.keys.length then
      .error (GlobalState.accountIdOverflows lv s.balanceTrees.keys.length)
    else .ok s.balanceTrees.keys.length := by
  have hlt : 2 ^ lv.accountLevels < 2 ^ 32 := Nat.pow_lt_pow_right one_lt_two lv.account_lt
  rw [GlobalState.getNextAccountId, Nat.mod_eq_of_lt (h.length_keys_le.trans_lt hlt)]

/-! ## The account that is created -/

/-- An account in range that does not exist is created. -/
theorem exists_initAccount (h : Shows s L) {a : ℕ} (ha : a < 2 ^ lv.accountLevels)
    (hfresh : a ∉ s.accountStates) (nextOrderId : ℕ) :
    ∃ s', s.initAccount a nextOrderId = .ok (.ok a, s') ∧ s.Creates a nextOrderId s' := by
  obtain ⟨t, ht⟩ := s.accountTree.exists_setValue ha lv.defaultAccountLeaf
  have hinit : ∃ s', s.initAccount a nextOrderId = .ok (.ok a, s') := by
    rw [GlobalState.initAccount, if_neg hfresh, if_neg (not_le.2 ha), ht]
    exact ⟨_, rfl⟩
  obtain ⟨s', hs'⟩ := hinit
  refine ⟨s', hs', ?_⟩
  -- Neither was the account there, nor is its id out of range.
  rcases initAccount_spec h hs' with ⟨hsome, -⟩ | ⟨-, hle, -⟩ | ⟨-, -, -, h'⟩
  · exact absurd (h.mem_accountStates.2 hsome) hfresh
  · exact absurd ha (not_lt.2 hle)
  · have he : (L.set a (.create lv nextOrderId)) a = some (.create lv nextOrderId) := L.set_self a _
    exact
      { lt := ha
        fresh := hfresh
        state := h'.lookup_accountStates he
        balanceTree := h'.lookup_balanceTrees he
        orderTree := h'.lookup_orderTrees he
        orders := h'.lookup_orderStates he
        nextOrderPosition := h'.lookup_nextOrderPositions he
        orderPos := fun orderId => h'.lookup_orderIdToPos he orderId
        others := fun b hb => by rw [h'.accountStates, h.accountStates, L.set_of_ne _ hb] }

theorem Shows.creates_iff_nextIsFree (h : Shows s L) (nextOrderId : ℕ) :
    s.CreatesFresh nextOrderId ↔ s.NextIsFree := by
  rw [GlobalState.CreatesFresh]
  rw [GlobalState.createNewAccount, h.getNextAccountId_eq]
  by_cases hle : 2 ^ lv.accountLevels ≤ s.balanceTrees.keys.length
  · -- all the ids are in use, and the number of the accounts is not one of them
    rw [if_pos hle]
    refine iff_of_true ⟨_, _, rfl, fun _ _ => ⟨rfl, fun a ha => h.mem_of_length_keys hle ha⟩,
      fun a ha => by cases ha⟩ fun hmem => ?_
    obtain ⟨e, he⟩ := Option.isSome_iff_exists.1 (h.mem_accountStates.1 hmem)
    exact absurd (h.lt he) (not_lt.2 hle)
  · rw [if_neg hle]
    constructor
    · rintro ⟨r, s', hr, -, hok⟩ hmem
      dsimp only at hr
      rw [GlobalState.initAccount, if_pos hmem, Exec.pure_eq_ok_iff, Prod.mk.injEq] at hr
      exact (hok _ hr.1.symm).fresh hmem
    · intro hfree
      obtain ⟨s', hs', hcreates⟩ := exists_initAccount h (not_le.1 hle) hfree nextOrderId
      refine ⟨_, s', hs', fun e he => (by cases he), fun a ha => ?_⟩
      rwa [← Except.ok.inj ha]

/-! ## Runs -/

/-- The id that is returned for a new account. -/
def Node.createdId (n : Node lv) : Op → Option ℕ
  | .createNewAccount nextOrderId =>
    match n.state.createNewAccount nextOrderId with
    | .ok (.ok a, _) => some a
    | _ => none
  | _ => none

/-- The ids that are returned for new accounts along a run. -/
def Node.createdIds : Node lv → List Op → List ℕ
  | _, [] => []
  | n, op :: ops => (n.createdId op).toList ++
    match n.step op with
    | .ok n' => n'.createdIds ops
    | .error _ => []

/-- If the operation is to create an account, then the next id is free. -/
def Op.WhenFree (s : GlobalState lv) : Op → Prop
  | .createNewAccount _ => s.NextIsFree
  | _ => True

instance (s : GlobalState lv) : (op : Op) → Decidable (op.WhenFree s)
  | .createNewAccount _ => inferInstanceAs (Decidable s.NextIsFree)
  | .setAccountL2Addr _ _ _ | .setAccountNonce _ _ | .setAccountOrder _ _ _
  | .setTokenBalance _ _ _ | .keyUpdate _ _ | .deposit _ _ | .transfer _ _ _ | .withdraw _ _
  | .fullSpotTrade _ _ _ | .cancelOrder _ _ | .nop | .flushWithNop | .popAllBlocks =>
    .isTrue trivial

/-- Accounts are not removed. -/
theorem Ledger.Steps.isSome {op : Op} {L L' : Ledger lv} (h : L.Steps op L') {a : ℕ}
    (ha : (L a).isSome) : (L' a).isSome := by
  induction h with
  | refl => exact ha
  | create n _ _ ih => exact Ledger.isSome_set ih _ _
  | change _ _ _ ih => exact Ledger.isSome_set ih _ _

theorem Node.mem_accountStates_step {n' : Node lv} (h : Shows n.state L) {op : Op}
    (hst : n.step op = .ok n') {a : ℕ} (ha : a ∈ n.state.accountStates) :
    a ∈ n'.state.accountStates := by
  obtain ⟨raw, hr⟩ := step_state hst
  obtain ⟨L', h', hsteps⟩ := apply_steps h hr
  exact h'.mem_accountStates.2 (hsteps.isSome (h.mem_accountStates.1 ha))

/-- The account whose id is returned did not exist before the step, and does after it. -/
theorem Node.createdId_spec (h : Shows n.state L) {op : Op} (hop : op.WhenFree n.state) {a : ℕ}
    (ha : n.createdId op = some a) :
    a ∉ n.state.accountStates ∧ ∀ n', n.step op = .ok n' → a ∈ n'.state.accountStates := by
  unfold createdId at ha
  split at ha
  · next nextOrderId =>
    obtain ⟨r, s', hr, -, hok⟩ := (h.creates_iff_nextIsFree nextOrderId).2 hop
    rw [hr] at ha
    split at ha
    · next b s₁ hb =>
      rw [Except.ok.injEq, Prod.mk.injEq] at hb
      have hcreates := hok a (hb.1.trans (congrArg _ (Option.some.inj ha)))
      refine ⟨hcreates.fresh, fun n' hst => ?_⟩
      obtain ⟨raw, happly⟩ := step_state hst
      cases GlobalState.applied happly with
      | createNewAccount hr' =>
        obtain ⟨-, hs'⟩ := Prod.mk.inj (Except.ok.inj (hr.symm.trans hr'))
        rw [← hs', ← AList.lookup_isSome, hcreates.state]
        rfl
    · cases ha
  · cases ha

/-- The next ids are those of accounts that do not exist yet. -/
theorem createdIds_nodup (h : Shows n.state L) {ops : List Op}
    (hops : Exec.Along Node.step (fun m op => op.WhenFree m.state) n ops) :
    (n.createdIds ops).Nodup ∧ ∀ a ∈ n.createdIds ops, a ∉ n.state.accountStates := by
  induction ops generalizing n L with
  | nil => exact ⟨List.nodup_nil, fun a ha => by cases ha⟩
  | cons op ops ih =>
    obtain ⟨hop, hops⟩ := hops
    rw [Node.createdIds]
    have hid := fun a (ha : a ∈ (n.createdId op).toList) =>
      Node.createdId_spec h hop (Option.mem_toList.1 ha)
    have hone : (n.createdId op).toList.Nodup := by cases n.createdId op <;> simp
    split
    · next n' hst =>
      obtain ⟨L', h'⟩ := Node.exists_shows_step ⟨L, h⟩ hst
      obtain ⟨hnodup, hfresh⟩ := ih h' (hops n' hst)
      refine ⟨List.nodup_append.2 ⟨hone, hnodup, fun a ha b hb hab => ?_⟩, fun a ha hmem => ?_⟩
      · exact hfresh b hb (hab ▸ (hid a ha).2 n' hst)
      · rcases List.mem_append.1 ha with ha | ha
        · exact (hid a ha).1 hmem
        · exact hfresh a ha (Node.mem_accountStates_step h hst hmem)
    · rw [List.append_nil]
      exact ⟨hone, fun a ha => (hid a ha).1⟩

/-- In every reachable state, an account is created exactly if the next id is free; and in a run
    in which it is, whenever an account is created, no id is returned twice, and none is the
    one of an account that exists. -/
theorem createsFresh_iff {nTx persistEveryNBlock : ℕ} {blockOffset : Option ℕ}
    (hn : Exec.Reachable Node.step (fun _ _ => True)
      (Node.new lv nTx blockOffset persistEveryNBlock) n) :
    (∀ nextOrderId, n.state.CreatesFresh nextOrderId ↔ n.state.NextIsFree) ∧
      ∀ ops, Exec.Along Node.step (fun m op => op.WhenFree m.state) n ops →
        (n.createdIds ops).Nodup ∧ ∀ a ∈ n.createdIds ops, a ∉ n.state.accountStates := by
  obtain ⟨L, h⟩ := Node.exists_shows hn
  exact ⟨h.creates_iff_nextIsFree, fun ops => createdIds_nodup h⟩

end Creating

/-- The account `1` is given a key, then two accounts are created. -/
def keyOneOps : List Op := [.keyUpdate ⟨1, ⟨2, 0, 6⟩⟩ none, .createNewAccount 1, .createNewAccount 1]

/-- The account `0` is given a key, then two accounts are created. -/
def keyZeroOps : List Op := [.keyUpdate ⟨0, ⟨1, 1, 5⟩⟩ none, .createNewAccount 1, .createNewAccount 1]

attribute [local instance] FluidexCommon.sample in
theorem createsFresh_iff_keyZeroOps :
    (Node.new Levels.small 2 none 9).createdIds keyZeroOps = [1, 2] ∧
      ((Node.new Levels.small 2 none 9).createdIds keyZeroOps).Nodup ∧
      (Node.new Levels.small 2 none 9).state.CreatesFresh 1 := by
  obtain ⟨hiff, hrun⟩ := createsFresh_iff (n := Node.new Levels.small 2 none 9) .init
  obtain ⟨n, hn⟩ := Exec.exists_eq_ok (Exec.run
    (Exec.guarded Node.step .unwrap fun n op => op.WhenFree n.state)
    (Node.new Levels.small 2 none 9) keyZeroOps) (by decide +kernel)
  exact ⟨by decide +kernel, (hrun keyZeroOps (Exec.along_of_guarded hn)).1,
    (hiff 1).2 (by decide +kernel)⟩

attribute [local instance] FluidexCommon.sample in
/-- The account `1` has a key, but its id is returned for both of the accounts. -/
theorem not_createsFresh_keyOneOps :
    ∃ n, Exec.run Node.step (Node.new Levels.small 2 none 9) (keyOneOps.take 1) = .ok n ∧
      n.state.hasAccount 1 ∧ n.state.createNewAccount 1 = .ok (.ok 1, n.state) ∧
      ¬n.state.CreatesFresh 1 ∧ (Node.new Levels.small 2 none 9).createdIds keyOneOps = [1, 1] := by
  obtain ⟨n, hn⟩ := Exec.exists_eq_ok (do
    let n ← Exec.run Node.step (Node.new Levels.small 2 none 9) (keyOneOps.take 1)
    assert (n.state.hasAccount 1 ∧ 1 ∈ n.state.accountStates ∧ n.state.getNextAccountId = .ok 1) "id"
    pure n) (by decide +kernel)
  simp only [Exec.bind_eq_ok_iff, Exec.assert_eq_ok_iff, Exec.pure_eq_ok_iff] at hn
  obtain ⟨n, hn, _, ⟨hkey, hmem, hnext⟩, rfl⟩ := hn
  have hcreate : n.state.createNewAccount 1 = .ok (.ok 1, n.state) := by
    rw [GlobalState.createNewAccount, hnext]
    exact if_pos hmem
  refine ⟨n, hn, hkey, hcreate, ?_, by decide +kernel⟩
  rintro ⟨r, s', hr, -, hok⟩
  obtain ⟨hr, -⟩ := Prod.mk.inj (Except.ok.inj (hcreate.symm.trans hr))
  exact (hok 1 hr.symm).fresh hmem

end Rollup
