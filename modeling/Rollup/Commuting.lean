import Rollup.Authorisation
import Rollup.Keys
import Rollup.Ledger.Accepts
import Rollup.Lib.Local

/-!
# Transactions that commute

A transaction only reads and changes the entries of the accounts it names
(`Ledger.Runs.isLocal`), so that two transactions naming different accounts can be made in
either order, and lead to states that show the same ledger. What is observed of a state is
that ledger, and the root of the account tree (`GlobalState.ObsEq`).
-/

namespace Rollup

section Commuting

variable [FluidexCommon] {lv : Levels} {s s' : GlobalState lv} {L L' M M' : Ledger lv} {a b : ℕ}
  {e f : Entry lv}

/-! ## What is observed -/

/-- The leaf of an order. -/
def GlobalState.orderLeaf (s : GlobalState lv) (accountId pos : ℕ) : Fr :=
  ((s.orderTrees.lookup accountId).getD lv.emptyOrderTree).getLeaf pos

/-- The states cannot be told apart. -/
structure GlobalState.ObsEq (s s' : GlobalState lv) : Prop where
  root : s.root = s'.root
  accountStates : ∀ a, s.accountStates.lookup a = s'.accountStates.lookup a
  balanceLeaf : ∀ a, ∀ token < 2 ^ lv.balanceLevels, s.balanceLeaf a token = s'.balanceLeaf a token
  orderLeaf : ∀ a, ∀ pos < 2 ^ lv.orderLevels, s.orderLeaf a pos = s'.orderLeaf a pos
  storedOrder : ∀ a pos, s.storedOrder a pos = s'.storedOrder a pos
  orderPos : ∀ a orderId, s.getOrderPosById a orderId = s'.getOrderPosById a orderId
  nextOrderPositions : ∀ a, s.nextOrderPositions.lookup a = s'.nextOrderPositions.lookup a

/-- The entries are observed to be the same. -/
structure Entry.Alike (e e' : Entry lv) : Prop where
  state : e.state = e'.state
  balances : ∀ token < 2 ^ lv.balanceLevels,
    e.balanceTree.getLeaf token = e'.balanceTree.getLeaf token
  orderTree : e.orderTree = e'.orderTree
  orders : e.orders = e'.orders
  orderPos : e.orderPos = e'.orderPos
  nextOrderPos : e.nextOrderPos = e'.nextOrderPos

omit [FluidexCommon] in
theorem Entry.Alike.refl (e : Entry lv) : e.Alike e := ⟨rfl, fun _ _ => rfl, rfl, rfl, rfl, rfl⟩

section Rel

variable {R : Entry lv → Entry lv → Prop}

omit [FluidexCommon] in
theorem rel_refl (hR : ∀ e, R e e) : ∀ o : Option (Entry lv), Option.Rel R o o
  | none => .none
  | some e => .some (hR e)

omit [FluidexCommon] in
/-- What is the same in related entries of an account. -/
theorem map_eq_of_rel {α : Type} {g : Entry lv → α} (h : Option.Rel R (L a) (M a))
    (hg : ∀ e e', R e e' → g e = g e') : (L a).map g = (M a).map g := by
  generalize L a = o at h
  generalize M a = o' at h
  cases h with
  | some hab => exact congrArg some (hg _ _ hab)
  | none => rfl

/-- An account without an entry has the initial one. -/
theorem entry_rel (hR : ∀ e, R e e) (h : Option.Rel R (L a) (M a)) :
    R (L.entry a) (M.entry a) := by
  rw [Ledger.entry, Ledger.entry]
  generalize L a = o at h
  generalize M a = o' at h
  cases h with
  | some hab => exact hab
  | none => exact hR _

end Rel

theorem Holds.orderLeaf_eq (h : Holds s L) (a pos : ℕ) :
    s.orderLeaf a pos = (L.entry a).orderTree.getLeaf pos := by
  rw [GlobalState.orderLeaf, h.orderTrees, Ledger.entry]
  cases L a <;> rfl

/-- States that show ledgers with the same entries cannot be told apart. -/
theorem GlobalState.ObsEq.of_alike (h : Shows s L) (h' : Shows s' M)
    (hLM : ∀ a, Option.Rel Entry.Alike (L a) (M a)) : s.ObsEq s' where
  root := by
    have hleaf : L.leaf = M.leaf := by
      funext a
      rw [Ledger.leaf, Ledger.leaf, (entry_rel .refl (hLM a)).state]
    rw [h.root_eq, h'.root_eq, hleaf]
  accountStates a := by
    rw [h.accountStates, h'.accountStates]
    exact map_eq_of_rel (hLM a) fun _ _ h => h.state
  balanceLeaf a token htoken := by
    rw [h.balanceLeaf_eq a htoken, h'.balanceLeaf_eq a htoken,
      (entry_rel .refl (hLM a)).balances token htoken]
  orderLeaf a pos _ := by rw [h.orderLeaf_eq, h'.orderLeaf_eq, (entry_rel .refl (hLM a)).orderTree]
  storedOrder a pos := by
    rw [h.storedOrder_entry, h'.storedOrder_entry, (entry_rel .refl (hLM a)).orders]
  orderPos a orderId := by
    rw [h.getOrderPosById_entry, h'.getOrderPosById_entry, (entry_rel .refl (hLM a)).orderPos]
  nextOrderPositions a := by
    rw [h.nextOrderPositions, h'.nextOrderPositions]
    exact map_eq_of_rel (hLM a) fun _ _ h => h.nextOrderPos

/-! ## Locality -/

/-- The accounts that a transaction names; orders name theirs. -/
def Op.accounts : Op → List ℕ
  | .keyUpdate tx _ => [tx.accountId]
  | .deposit tx _ => [tx.accountId]
  | .transfer _ tx _ => [tx.fromId, tx.toId]
  | .withdraw tx _ => [tx.accountId]
  | .fullSpotTrade _ tx _ => [tx.trade.order1AccountId, tx.trade.order2AccountId] ++
      (tx.makerOrder.toList ++ tx.takerOrder.toList).map Order.accountId
  | _ => []

/-- The same transaction, with another schedule of its parallel tasks. -/
def Op.reschedule (schedule : Shuffle Task) : Op → Op
  | .transfer _ tx offset => .transfer schedule tx offset
  | .fullSpotTrade _ tx offset => .fullSpotTrade schedule tx offset
  | op => op

theorem Ledger.Runs.reschedule {op : Op} (h : L.Runs op L') (schedule : Shuffle Task) :
    L.Runs (op.reschedule schedule) L' := by
  cases h with
  | keyUpdate hay ha ht => exact .keyUpdate hay ha ht
  | deposit hkey ha ht => exact .deposit hkey ha ht
  | transfer hne hcan => exact .transfer hne hcan
  | withdraw ha ht => exact .withdraw ha ht
  | fullSpotTrade hT h1 h2 => exact .fullSpotTrade hT h1 h2

namespace Ledger

theorem entry_congr (h : M a = L a) : M.entry a = L.entry a := by rw [entry, entry, h]

omit [FluidexCommon] in
theorem set_set_congr {c : ℕ} (h : M c = L c) (a b : ℕ) (e f : Entry lv) :
    (M.set a e).set b f c = (L.set a e).set b f c := by
  simp only [set_apply, h]

/-- Replacing the entries of two accounts (or of one, twice) with what those of the accounts
    that are named decide. -/
theorem isLocal_of_set {op : Op} (ha : a ∈ op.accounts) (hb : b ∈ op.accounts)
    (h : ∀ L L' : Ledger lv, L.Runs op L' → ∃ e f, L' = (L.set a e).set b f ∧
      ∀ M : Ledger lv, (∀ c ∈ op.accounts, M c = L c) → M.Runs op ((M.set a e).set b f)) :
    Families.Local {c | c ∈ op.accounts} fun L L' : Ledger lv => L.Runs op L' where
  frame := by
    intro L L' hrun c hc
    obtain ⟨e, f, rfl, -⟩ := h L L' hrun
    have hca : c ≠ a := fun hca => hc (show c ∈ op.accounts from hca ▸ ha)
    have hcb : c ≠ b := fun hcb => hc (show c ∈ op.accounts from hcb ▸ hb)
    rw [set_of_ne _ f hcb, set_of_ne L e hca]
  transport := by
    intro L L' M M' hrun hM hM' hoff
    obtain ⟨e, f, rfl, hruns⟩ := h L L' hrun
    -- the entries that are written are decided by the named accounts
    suffices hset : M' = (set M a e).set b f from hset ▸ hruns M hM
    funext c
    by_cases hc : c ∈ op.accounts
    · rw [hM' c hc, set_set_congr (hM c hc)]
    · have hca : c ≠ a := fun hca => hc (hca ▸ ha)
      have hcb : c ≠ b := fun hcb => hc (hcb ▸ hb)
      rw [hoff c hc, set_of_ne _ f hcb, set_of_ne M e hca]

/-- Replacing the entry of one account. -/
theorem isLocal_of_set_one {op : Op} (ha : a ∈ op.accounts)
    (h : ∀ L L' : Ledger lv, L.Runs op L' → ∃ e, L' = L.set a e ∧
      ∀ M : Ledger lv, (∀ c ∈ op.accounts, M c = L c) → M.Runs op (M.set a e)) :
    Families.Local {c | c ∈ op.accounts} fun L L' : Ledger lv => L.Runs op L' := by
  refine isLocal_of_set ha ha fun L L' hrun => ?_
  obtain ⟨e, rfl, hruns⟩ := h L L' hrun
  refine ⟨e, e, (L.set_idem a e e).symm, fun M hM => ?_⟩
  rw [set_idem]
  exact hruns M hM

theorem CanTransfer.congr {tx : TransferTx} (h : L.CanTransfer tx) (hfrom : M tx.fromId = L tx.fromId)
    (hto : M tx.toId = L tx.toId) : M.CanTransfer tx where
  keyed := hfrom ▸ h.keyed
  funds := entry_congr hfrom ▸ h.funds
  receiver := hto ▸ h.receiver

omit [FluidexCommon] in
theorem Takes.congr {supplied : Option Order} {orderId : ℕ} {order : Order}
    (h : L.Takes supplied a orderId order) (ha : M a = L a)
    (hs : ∀ o ∈ supplied, M o.accountId = L o.accountId) : M.Takes supplied a orderId order := by
  cases supplied with
  | none => rwa [Takes, ha]
  | some o => rwa [Takes, hs o rfl]

/-- A transaction is about the accounts that it names. -/
theorem Runs.isLocal (op : Op) :
    Families.Local {a | a ∈ op.accounts} fun L L' : Ledger lv => L.Runs op L' := by
  cases op with
  | keyUpdate tx offset =>
    have ha : tx.accountId ∈ Op.accounts (.keyUpdate tx offset) := List.mem_singleton_self _
    refine isLocal_of_set_one ha fun L L' hrun => ?_
    cases hrun with
    | keyUpdate hay hlt ht =>
      refine ⟨_, rfl, fun M hM => ?_⟩
      have he := entry_congr (hM _ ha)
      rw [← he]
      exact .keyUpdate (he ▸ hay) hlt (he ▸ ht)
  | deposit tx offset =>
    have ha : tx.accountId ∈ Op.accounts (.deposit tx offset) := List.mem_singleton_self _
    refine isLocal_of_set_one ha fun L L' hrun => ?_
    cases hrun with
    | deposit hkey hlt ht =>
      refine ⟨_, rfl, fun M hM => ?_⟩
      have he := entry_congr (hM _ ha)
      rw [← he]
      exact .deposit (he ▸ hkey) hlt (he ▸ ht)
  | transfer schedule tx offset =>
    have hfrom : tx.fromId ∈ Op.accounts (.transfer schedule tx offset) := List.mem_cons_self
    have hto : tx.toId ∈ Op.accounts (.transfer schedule tx offset) :=
      List.mem_cons_of_mem _ (List.mem_singleton_self _)
    refine isLocal_of_set hfrom hto fun L L' hrun => ?_
    cases hrun with
    | transfer hne hcan =>
      refine ⟨_, _, rfl, fun M hM => ?_⟩
      rw [← entry_congr (hM _ hfrom), ← entry_congr (hM _ hto)]
      exact .transfer hne (hcan.congr (hM _ hfrom) (hM _ hto))
  | withdraw tx offset =>
    have ha : tx.accountId ∈ Op.accounts (.withdraw tx offset) := List.mem_singleton_self _
    refine isLocal_of_set_one ha fun L L' hrun => ?_
    cases hrun with
    | withdraw hlt ht =>
      refine ⟨_, rfl, fun M hM => ?_⟩
      have he := entry_congr (hM _ ha)
      rw [← he]
      exact .withdraw hlt (he ▸ ht)
  | fullSpotTrade schedule tx offset =>
    have h1 : tx.trade.order1AccountId ∈ Op.accounts (.fullSpotTrade schedule tx offset) := by
      simp [Op.accounts]
    have h2 : tx.trade.order2AccountId ∈ Op.accounts (.fullSpotTrade schedule tx offset) := by
      simp [Op.accounts]
    -- an order that is supplied names its account
    have hmaker : ∀ o ∈ tx.makerOrder, o.accountId ∈
        Op.accounts (.fullSpotTrade schedule tx offset) := by
      intro o ho
      simp [Op.accounts, Option.mem_def.1 ho]
    have htaker : ∀ o ∈ tx.takerOrder, o.accountId ∈
        Op.accounts (.fullSpotTrade schedule tx offset) := by
      intro o ho
      simp [Op.accounts, Option.mem_def.1 ho]
    refine isLocal_of_set h1 h2 fun L L' hrun => ?_
    cases hrun with
    | fullSpotTrade hT ht1 ht2 =>
      refine ⟨_, _, rfl, fun M hM => .fullSpotTrade ?_ ht1 ht2⟩
      exact { hT with
        entry1 := (hM _ h1).trans hT.entry1
        entry2 := (hM _ h2).trans hT.entry2
        takes1 := hT.takes1.congr (hM _ h1) fun o ho => hM _ (hmaker o ho)
        takes2 := hT.takes2.congr (hM _ h2) fun o ho => hM _ (htaker o ho) }
  | createNewAccount _ | setAccountL2Addr _ _ _ | setAccountNonce _ _ | setAccountOrder _ _ _
  | setTokenBalance _ _ _ | cancelOrder _ _ | nop | flushWithNop | popAllBlocks =>
    exact {
      frame := fun hrun => by cases hrun
      transport := fun hrun => by cases hrun }

end Ledger

/-! ## Both orders -/

/-- Two transactions naming different accounts are accepted in both orders, whatever the
    schedules, and lead to states that cannot be told apart. -/
theorem comm_of_disjoint {n : Node lv} {allowed : Node lv → Op → Prop}
    {nTx persistEveryNBlock : ℕ} {blockOffset : Option ℕ}
    (hn : Exec.Reachable Node.step allowed (Node.new lv nTx blockOffset persistEveryNBlock) n)
    {op₁ op₂ : Op} (h₁ : op₁.IsTransaction) (h₂ : op₂.IsTransaction)
    (hdisj : op₁.accounts.Disjoint op₂.accounts) {rawTx₁ rawTx₂ : RawTx} {s₁ s₂ : GlobalState lv}
    (hr₁ : n.state.apply op₁ = .ok (some rawTx₁, s₁)) (hr₂ : s₁.apply op₂ = .ok (some rawTx₂, s₂))
    (schedule₁ schedule₂ : Shuffle Task) :
    ∃ rawTx₁' rawTx₂' t₁ t₂,
      n.state.apply (op₂.reschedule schedule₂) = .ok (some rawTx₂', t₁) ∧
      t₁.apply (op₁.reschedule schedule₁) = .ok (some rawTx₁', t₂) ∧ s₂.ObsEq t₂ := by
  obtain ⟨L, h⟩ := Node.exists_shows hn
  obtain ⟨L₁, hrun₁, hs₁⟩ := runs_of_apply h h₁ hr₁
  obtain ⟨L₂, hrun₂, hs₂⟩ := runs_of_apply hs₁ h₂ hr₂
  -- in the ledger, the second transaction can be made first
  obtain ⟨M, hrun₂', hrun₁'⟩ := (Ledger.Runs.isLocal op₁).comm (Ledger.Runs.isLocal op₂)
    (Set.disjoint_left.2 fun a ha ha' => hdisj ha ha') hrun₁ hrun₂
  obtain ⟨rawTx₂', t₁, hr₂', ht₁⟩ := (Ledger.Runs.reschedule hrun₂' schedule₂).exists_apply h
  obtain ⟨rawTx₁', t₂, hr₁', ht₂⟩ := (Ledger.Runs.reschedule hrun₁' schedule₁).exists_apply ht₁
  exact ⟨rawTx₁', rawTx₂', t₁, t₂, hr₂', hr₁', .of_alike hs₂ ht₂ fun a => rel_refl .refl (L₂ a)⟩

end Commuting

/-- A trade between the accounts `0` and `1`. -/
def tradeOf01 (schedule : Shuffle Task) : Op :=
  .fullSpotTrade schedule
    ⟨⟨0, 1, 1, 0, 5, 6, 3, 4⟩, some tenForTwelve, some sixForFive⟩ none

attribute [local instance] FluidexCommon.sample in
/-- The account `2` gets its key before the trade, or after it. -/
theorem comm_tradeOf01 :
    ∃ n rawTx₁ rawTx₂ s₁ s₂,
      Exec.run Node.step (Node.new Levels.small 2 none 9) traders = .ok n ∧
      n.state.apply (tradeOf01 .id) = .ok (some rawTx₁, s₁) ∧
      s₁.apply (.keyUpdate ⟨2, ⟨3, 1, 7⟩⟩ none) = .ok (some rawTx₂, s₂) ∧
      ∃ rawTx₁' rawTx₂' t₁ t₂,
        n.state.apply (.keyUpdate ⟨2, ⟨3, 1, 7⟩⟩ none) = .ok (some rawTx₂', t₁) ∧
        t₁.apply (tradeOf01 .reverse) = .ok (some rawTx₁', t₂) ∧ s₂.ObsEq t₂ := by
  obtain ⟨⟨n, s₁, s₂, rawTx₁, rawTx₂⟩, hn⟩ := Exec.exists_eq_ok (do
    let n ← Exec.run Node.step (Node.new Levels.small 2 none 9) traders
    let r₁ ← n.state.apply (tradeOf01 .id)
    let rawTx₁ ← unwrap r₁.1
    let r₂ ← r₁.2.apply (.keyUpdate ⟨2, ⟨3, 1, 7⟩⟩ none)
    let rawTx₂ ← unwrap r₂.1
    pure (n, r₁.2, r₂.2, rawTx₁, rawTx₂)) (by decide +kernel)
  simp only [Exec.bind_eq_ok_iff, Exec.unwrap_eq_ok_iff, Exec.pure_eq_ok_iff, Prod.mk.injEq] at hn
  obtain ⟨n, hn, ⟨_, s₁⟩, hr₁, rawTx₁, rfl, ⟨_, s₂⟩, hr₂, rawTx₂, rfl, rfl, rfl, rfl, rfl, rfl⟩ := hn
  have hreach : Exec.Reachable Node.step (fun _ _ => True) (Node.new Levels.small 2 none 9) n :=
    Exec.Reachable.init.run (fun _ _ _ => trivial) hn
  have hdisj : (tradeOf01 .id).accounts.Disjoint (Op.accounts (.keyUpdate ⟨2, ⟨3, 1, 7⟩⟩ none)) :=
    List.disjoint_singleton.2 (show 2 ∉ [0, 1, 0, 1] by decide)
  have htrade : (tradeOf01 .id).IsTransaction := trivial
  have hkey : Op.IsTransaction (.keyUpdate ⟨2, ⟨3, 1, 7⟩⟩ none) := trivial
  exact ⟨n, rawTx₁, rawTx₂, s₁, s₂, hn, hr₁, hr₂,
    comm_of_disjoint hreach htrade hkey hdisj hr₁ hr₂ .reverse .reverse⟩

end Rollup
