import Rollup.Conservation

/-!
# Keys

An account has a key once its `ay` is not zero, and only then are its balances read: those of
an account without a key are zero, whatever its tree holds. A key update and a deposit to a
new account refuse an account that has a key; a transfer that comes with a key does not look,
and takes any receiver.

* `keyOf_kept_iff`: an account keeps its key along a run exactly when no transfer to it comes
  with another one;
* `readsLeaves_of_keepsReads`: what is read is what the trees hold as long as nothing is
  credited to, or withdrawn from, an account without a key.
-/

namespace Rollup

section Keys

variable [FluidexCommon] {lv : Levels} {s s' : GlobalState lv} {L : Ledger lv} {a : ℕ}

/-! ## The key of an account -/

/-- The sign and the `ay` of an account. -/
def GlobalState.keyOf (s : GlobalState lv) (accountId : ℕ) : Fr × Fr :=
  ((s.getAccount accountId).sign, (s.getAccount accountId).ay)

/-- Whether an account has a key depends on the key only. -/
theorem GlobalState.hasAccount.of_keyOf (hkey : s'.keyOf a = s.keyOf a) (ha : s.hasAccount a) :
    s'.hasAccount a := by
  have hay : (s'.getAccount a).ay = (s.getAccount a).ay := congrArg Prod.snd hkey
  rwa [hasAccount, hay]

omit [FluidexCommon] in
/-- The same, in an entry. -/
def Entry.key (e : Entry lv) : Fr × Fr := (e.state.sign, e.state.ay)

omit [FluidexCommon] in
/-- The key is the new one, if there is one. -/
theorem Entry.key_setNewL2Addr (e : Entry lv) (l2key : Option L2Key) :
    (e.setNewL2Addr l2key).key = (l2key.map fun k => (k.sign, k.ay)).getD e.key := by
  cases l2key <;> rfl

/-- A trade changes no key. -/
theorem Entry.Trades.key_eq {e e' : Entry lv} {order : Order} {pos : ℕ} {sell buy : Fr}
    {updates : List (ℕ × Fr)} (h : e.Trades order pos sell buy updates e') : e'.key = e.key := by
  rw [Entry.key, h.state_eq]
  rfl

/-- The key of an account is the one of its entry. -/
theorem Holds.keyOf_eq (h : Holds s L) (a : ℕ) : s.keyOf a = (L.entry a).key := by
  rw [GlobalState.keyOf, h.getAccount_eq]
  rfl

/-- Only the key of the account whose entry is replaced may change. -/
theorem Holds.keyOf_set {b : ℕ} {e : Entry lv} (h : Holds s L) (h' : Holds s' (L.set b e)) (a : ℕ) :
    s'.keyOf a = if a = b then e.key else s.keyOf a := by
  rw [h'.keyOf_eq, Ledger.entry_set, h.keyOf_eq]
  split <;> rfl

/-- Setting an entry with the same key changes no key. -/
theorem Holds.keyOf_set_of_key {b : ℕ} {e : Entry lv} (h : Holds s L) (h' : Holds s' (L.set b e))
    (he : a = b → e.key = (L.entry b).key) : s'.keyOf a = s.keyOf a := by
  rw [h.keyOf_set h']
  split
  · next hab => rw [he hab, hab, h.keyOf_eq]
  · rfl

theorem Holds.keyOf_set_of_some {b : ℕ} {e f : Entry lv} (h : Holds s L)
    (h' : Holds s' (L.set b e)) (hf : L b = some f) (he : e.key = f.key) : s'.keyOf a = s.keyOf a :=
  h.keyOf_set_of_key h' fun _ => he.trans (congrArg Entry.key (Ledger.entry_of_some hf).symm)

/-! ## Keeping a key -/

/-- The operation does not give the account another key than its own. -/
def Op.KeepsKey (s : GlobalState lv) (accountId : ℕ) : Op → Prop
  | .setAccountL2Addr a sign ay => a = accountId → (sign, ay) = s.keyOf accountId
  | .transfer _ tx _ => tx.toId = accountId →
      ∀ l2key ∈ tx.l2key, (l2key.sign, l2key.ay) = s.keyOf accountId
  | _ => True

/-- A transfer gives its receiver the key it comes with. -/
theorem transfer_keyOf (h : Shows s L) {schedule : Shuffle Task} {tx : TransferTx}
    {offset : Option ℤ} {rawTx : RawTx} (hr : s.transfer schedule tx offset = .ok (rawTx, s')) :
    s'.keyOf a = if a = tx.toId then
      (tx.l2key.map fun k => (k.sign, k.ay)).getD (s.keyOf a) else s.keyOf a := by
  obtain ⟨-, htrans, -⟩ := transfer_spec h hr
  rcases eq_or_ne tx.fromId tx.toId with heq | hne
  · obtain ⟨updates, -, h'⟩ := htrans.eq heq
    rw [h.keyOf_set h'.toHolds, Entry.key_setNewL2Addr]
    split
    · next ha => rw [ha, h.keyOf_eq]; rfl
    · rfl
  · have h' := (htrans.ne hne).toHolds
    rw [h'.keyOf_eq, Ledger.entry_set, Ledger.entry_set, h.keyOf_eq]
    split
    · next ha => rw [ha, Entry.key_setNewL2Addr]; rfl
    · split
      · next ha => rw [ha]; rfl
      · rfl

/-- An operation keeps the key of an account that has one exactly when it does not give
    it another one. -/
theorem apply_keyOf_iff (h : Shows s L) (ha : s.hasAccount a) {op : Op} {raw : Option RawTx}
    (hr : s.apply op = .ok (raw, s')) : s'.keyOf a = s.keyOf a ↔ op.KeepsKey s a := by
  -- every operation keeps the key, but for the two that set one
  obtain ⟨e, he, hay⟩ := h.exists_of_hasAccount ha
  cases GlobalState.applied hr with
  | createNewAccount hr =>
    refine iff_of_true ?_ trivial
    rcases createNewAccount_spec h hr with rfl | ⟨b, hnone, -, h'⟩
    · rfl
    · refine h.keyOf_set_of_key h'.toHolds ?_
      rintro rfl
      rw [he] at hnone
      cases hnone
  | @setAccountL2Addr b sign ay _ hr =>
    obtain ⟨f, hf, h'⟩ := setAccountL2Addr_spec h hr
    rw [h.keyOf_set h'.toHolds, Op.KeepsKey]
    split
    · next hab => exact ⟨fun hkey _ => hkey, fun hkey => hkey hab.symm⟩
    · next hab => exact iff_of_true rfl fun hba => absurd hba.symm hab
  | setAccountNonce hr =>
    obtain ⟨f, hf, h'⟩ := setAccountNonce_spec h hr
    exact iff_of_true (h.keyOf_set_of_some h'.toHolds hf rfl) trivial
  | setAccountOrder hr =>
    obtain ⟨f, t, hf, -, -, h'⟩ := setAccountOrder_spec h hr
    exact iff_of_true (h.keyOf_set_of_some h'.toHolds hf rfl) trivial
  | setTokenBalance hr =>
    obtain ⟨t, -, h'⟩ := setTokenBalance_spec h hr
    exact iff_of_true (h.keyOf_set_of_key h'.toHolds fun _ => rfl) trivial
  | keyUpdate hr =>
    refine iff_of_true ?_ trivial
    rcases keyUpdate_spec h hr with ⟨-, rfl⟩ | ⟨hnew, t, -, h', -⟩
    · rfl
    · -- The account that gets a key has none.
      refine h.keyOf_set_of_key h'.toHolds ?_
      rintro rfl
      exact absurd ha hnew
  | deposit hr =>
    refine iff_of_true ?_ trivial
    rcases deposit_spec h hr with ⟨-, rfl⟩ | ⟨hnew, t, -, h', -⟩
    · rfl
    · refine h.keyOf_set_of_key h'.toHolds ?_
      rintro rfl
      rw [hnew.2 ha]
      rfl
  | @transfer schedule tx offset rawTx _ hr =>
    rw [transfer_keyOf h hr, Op.KeepsKey]
    split
    · next hab =>
      cases tx.l2key with
      | none => exact iff_of_true rfl fun _ _ hk => by cases hk
      | some l2key =>
        simp only [Option.map_some, Option.getD_some, Option.mem_some_iff, forall_eq']
        exact ⟨fun hkey _ => hkey, fun hkey => hkey hab.symm⟩
    · next hab => exact iff_of_true rfl fun hba => absurd hba.symm hab
  | withdraw hr =>
    obtain ⟨t, -, h', -⟩ := withdraw_spec h hr
    exact iff_of_true (h.keyOf_set_of_key h'.toHolds fun _ => rfl) trivial
  | fullSpotTrade hr =>
    refine iff_of_true ?_ trivial
    obtain ⟨T, e1', e2', hT, h1, h2, h', -⟩ := fullSpotTrade_spec h hr
    rw [h'.keyOf_eq, Ledger.entry_set, Ledger.entry_set, h.keyOf_eq]
    split
    · next ha => rw [ha, Ledger.entry_of_some hT.entry2, h2.key_eq]
    · split
      · next ha => rw [ha, Ledger.entry_of_some hT.entry1, h1.key_eq]
      · rfl
  | cancelOrder hr =>
    obtain ⟨f, pos, order, hf, -, -, h'⟩ := cancelOrder_spec h hr
    exact iff_of_true (h.keyOf_set_of_some h'.toHolds hf rfl) trivial
  | nop | flushWithNop | popAllBlocks => exact iff_of_true rfl trivial

/-- From any state where an account has a key, it keeps it along a run exactly when none of
    the operations gives it another one. -/
theorem keyOf_kept_iff {n n' : Node lv} {nTx persistEveryNBlock : ℕ} {blockOffset : Option ℕ}
    (hn : Exec.Reachable Node.step (fun _ _ => True)
      (Node.new lv nTx blockOffset persistEveryNBlock) n)
    (ha : n.state.hasAccount a) {ops : List Op} (hrun : Exec.run Node.step n ops = .ok n') :
    (∀ k m, Exec.run Node.step n (ops.take k) = .ok m → m.state.keyOf a = n.state.keyOf a) ↔
      ∀ k m op, Exec.run Node.step n (ops.take k) = .ok m → ops[k]? = some op →
        op.KeepsKey m.state a := by
  have hstep : ∀ (m : Node lv) op m', (∃ L, Shows m.state L) →
      m.state.keyOf a = n.state.keyOf a → m.step op = .ok m' →
      (m'.state.keyOf a = n.state.keyOf a ↔ op.KeepsKey m.state a) := by
    rintro m op m' ⟨L, h⟩ hkey hst
    obtain ⟨raw, hr⟩ := Node.step_state hst
    rw [← hkey, apply_keyOf_iff h (.of_keyOf hkey ha) hr]
  obtain ⟨L, h, -⟩ := exists_committed hn
  exact Exec.forall_take_iff (fun _ _ _ => Node.exists_shows_step) hstep ⟨L, h⟩ rfl hrun

/-! ## Balances and keys -/

/-- The leaf of an account for a token, zero if it has no tree. -/
def GlobalState.balanceLeaf (s : GlobalState lv) (accountId tokenId : ℕ) : Fr :=
  ((s.balanceTrees.lookup accountId).map fun tree => tree.getLeaf tokenId).getD 0

/-- The balances that are read are those that the trees hold. -/
def GlobalState.ReadsLeaves (s : GlobalState lv) : Prop :=
  ∀ a token, token < 2 ^ lv.balanceLevels → s.getTokenBalance a token = .ok (s.balanceLeaf a token)

/-- All the balances are zero. -/
def Entry.Empty (e : Entry lv) : Prop :=
  ∀ token < 2 ^ lv.balanceLevels, e.balanceTree.getLeaf token = 0

/-- Without a key, there are none. -/
def Entry.Readable (e : Entry lv) : Prop := e.state.ay = 0 → e.Empty

/-- A new account has a zero in every leaf. -/
theorem getLeaf_create (lv : Levels) (n : ℕ) {token : ℕ} (htoken : token < 2 ^ lv.balanceLevels) :
    (Entry.create lv n).balanceTree.getLeaf token = 0 :=
  (Tree.represents_empty _ _).getLeaf htoken

theorem Holds.balanceLeaf_eq (h : Holds s L) (a : ℕ) {token : ℕ}
    (htoken : token < 2 ^ lv.balanceLevels) :
    s.balanceLeaf a token = (L.entry a).balanceTree.getLeaf token := by
  rw [GlobalState.balanceLeaf, h.balanceTrees, Ledger.entry]
  cases L a with
  | none => exact (getLeaf_create lv _ htoken).symm
  | some e => rfl

/-- The balances that are read are the leaves exactly if every entry is readable. -/
theorem Holds.readsLeaves_iff (h : Holds s L) : s.ReadsLeaves ↔ ∀ a, (L.entry a).Readable := by
  constructor
  · intro hs a hay token htoken
    have hread := hs a token htoken
    rw [h.getTokenBalance_eq, h.balanceLeaf_eq a htoken, Entry.balance, if_pos hay,
      Except.ok.injEq] at hread
    exact hread.symm
  · intro hL a token htoken
    rw [h.getTokenBalance_eq, h.balanceLeaf_eq a htoken, Entry.balance]
    split
    · next hay => rw [hL a hay token htoken]
    · rfl

omit [FluidexCommon] in
/-- A leaf stays zero if only zeros are written to it. -/
theorem writes_eq_zero {updates : List (ℕ × Fr)} {leaf : ℕ → Fr} {i : ℕ}
    (h : ∀ u ∈ updates, u.1 = i → u.2 = 0) (hi : leaf i = 0) : writes updates leaf i = 0 := by
  induction updates generalizing leaf with
  | nil => exact hi
  | cons u us ih =>
    rw [writes_cons]
    refine ih (fun v hv => h v (List.mem_cons_of_mem u hv)) ?_
    rw [Function.update_apply]
    split
    · next hu => exact h u List.mem_cons_self hu.symm
    · exact hi

namespace Entry.Readable

variable {e e' : Entry lv}

theorem create (lv : Levels) (n : ℕ) : (Entry.create lv n).Readable :=
  fun _ _ htoken => getLeaf_create lv n htoken

omit [FluidexCommon] in
theorem of_keyed (h : e.state.ay ≠ 0) : e.Readable := fun hay => absurd hay h

omit [FluidexCommon] in
/-- What keeps the key and the balances keeps the entry readable. -/
theorem congr (h : e.Readable) (hs : e'.state.ay = e.state.ay)
    (ht : e'.balanceTree = e.balanceTree) : e'.Readable := by
  intro hay token htoken
  rw [ht]
  exact h (hs ▸ hay) token htoken

/-- Writing zeros in an entry that holds nothing. -/
theorem of_put {updates : List (ℕ × Fr)}
    (ht : e'.balanceTree = (e.putBalances updates).balanceTree)
    (h : e'.state.ay = 0 → (∀ u ∈ updates, u.1 < 2 ^ lv.balanceLevels → u.2 = 0) ∧ e.Empty) :
    e'.Readable := by
  intro hay token htoken
  obtain ⟨hzero, hempty⟩ := h hay
  rw [ht, e.getLeaf_putBalances _ htoken]
  exact writes_eq_zero (fun u hu htu => hzero u hu (htu ▸ htoken)) (hempty token htoken)

/-- A leaf may be written once the account has a key, or if it stays zero. -/
theorem of_set {token : ℕ} {v : Fr} (ht : e.balanceTree.setValue token v = .ok e'.balanceTree)
    (h : e'.state.ay = 0 → v = 0 ∧ e.Empty) : e'.Readable := by
  intro hay i hi
  obtain ⟨rfl, hempty⟩ := h hay
  rw [Tree.getLeaf_setValue ht hi]
  split
  · rfl
  · exact hempty i hi

end Entry.Readable

/-! ## Operations -/

/-- What an operation may do so that accounts without a key still hold nothing: what has no
    key gets one, is credited nothing, and nothing is withdrawn from it. -/
def Op.KeepsReads (s : GlobalState lv) : Op → Prop
  | .setAccountL2Addr a _ ay => ay = 0 →
      ∀ token < 2 ^ lv.balanceLevels, s.balanceLeaf a token = 0
  | .setTokenBalance a _ balance => s.hasAccount a ∨ balance = 0
  | .deposit tx _ => ∀ l2key ∈ tx.l2key, l2key.ay = 0 → tx.amount.toNat = 0
  | .transfer _ tx _ =>
    match tx.l2key with
    | none => s.hasAccount tx.toId ∨ tx.amount.toNat = 0
    | some l2key => l2key.ay = 0 → tx.amount.toNat = 0 ∧
        ∀ token < 2 ^ lv.balanceLevels, s.balanceLeaf tx.toId token = 0
  | .withdraw tx _ => s.hasAccount tx.accountId ∨ tx.amount.toNat = 0
  | _ => True

instance (s : GlobalState lv) : (op : Op) → Decidable (op.KeepsReads s)
  | .setAccountL2Addr a _ ay => inferInstanceAs (Decidable (ay = 0 →
      ∀ token < 2 ^ lv.balanceLevels, s.balanceLeaf a token = 0))
  | .setTokenBalance a _ balance => inferInstanceAs (Decidable (s.hasAccount a ∨ balance = 0))
  | .deposit tx _ =>
    inferInstanceAs (Decidable (∀ l2key ∈ tx.l2key, l2key.ay = 0 → tx.amount.toNat = 0))
  | .transfer _ tx _ =>
    match h : tx.l2key with
    | none => decidable_of_iff (s.hasAccount tx.toId ∨ tx.amount.toNat = 0)
        (by rw [Op.KeepsReads, h])
    | some l2key => decidable_of_iff (l2key.ay = 0 → tx.amount.toNat = 0 ∧
        ∀ token < 2 ^ lv.balanceLevels, s.balanceLeaf tx.toId token = 0)
        (by rw [Op.KeepsReads, h])
  | .withdraw tx _ =>
    inferInstanceAs (Decidable (s.hasAccount tx.accountId ∨ tx.amount.toNat = 0))
  | .createNewAccount _ | .setAccountNonce _ _ | .setAccountOrder _ _ _ | .keyUpdate _ _
  | .fullSpotTrade _ _ _ | .cancelOrder _ _ | .nop | .flushWithNop | .popAllBlocks =>
    .isTrue trivial

omit [FluidexCommon] in
/-- Without a key, every balance reads as zero. -/
theorem Entry.balance_of_unkeyed {e : Entry lv} (h : e.state.ay = 0) (token : ℕ) :
    e.balance token = 0 :=
  if_pos h

omit [FluidexCommon] in
theorem U128.toFr_eq_zero {amount : U128} (h : amount.toNat = 0) : amount.toFr = 0 := by
  rw [U128.toFr, h, Nat.cast_zero]

omit [FluidexCommon] in
/-- An entry that holds nothing has no balance to read. -/
theorem Entry.Empty.balance_eq {e : Entry lv} (h : e.Empty) {token : ℕ}
    (htoken : token < 2 ^ lv.balanceLevels) : e.balance token = 0 := by
  rw [Entry.balance, h token htoken, ite_self]

omit [FluidexCommon] in
/-- The coordinate of the key is the new one, if there is a new key. -/
theorem setNewL2Addr_ay (e : Entry lv) (l2key : Option L2Key) :
    (e.setNewL2Addr l2key).state.ay = (l2key.map L2Key.ay).getD e.state.ay := by
  cases l2key <;> rfl

theorem Ledger.forall_readable_set (hL : ∀ a, (L.entry a).Readable) {b : ℕ} {e e' : Entry lv}
    (he : L b = some e) (hay : e'.state.ay = e.state.ay) (ht : e'.balanceTree = e.balanceTree) :
    ∀ a, ((L.set b e').entry a).Readable := by
  have hread := Ledger.entry_of_some he ▸ hL b
  exact Ledger.forall_set hL (hread.congr hay ht) b

/-- A deposit keeps the entries readable: an account left without a key is credited nothing. -/
theorem deposit_readable (h : Shows s L) (hL : ∀ a, (L.entry a).Readable) {tx : DepositTx}
    {offset : Option ℤ} {r : Except AnyhowError RawTx} (hop : (Op.deposit tx offset).KeepsReads s)
    (hr : s.deposit tx offset = .ok (r, s')) : ∃ L', Shows s' L' ∧ ∀ a, (L'.entry a).Readable := by
  rcases deposit_spec h hr with ⟨-, rfl⟩ | ⟨hnew, t, ht, h', -⟩
  · exact ⟨L, h, hL⟩
  refine ⟨_, h', Ledger.forall_set hL
    (.of_set (e := L.entry tx.accountId) (by rw [balanceTree_setNewL2Addr]; exact ht) ?_) _⟩
  intro hay
  rw [setNewL2Addr_ay] at hay
  cases hk : tx.l2key with
  | none =>
    rw [hk] at hay
    exact absurd hay ((h.hasAccount_iff _).1 (hnew.1 hk))
  | some l2key =>
    -- The account had no key, so it held nothing.
    rw [hk] at hay
    have hold : (L.entry tx.accountId).state.ay = 0 := by
      by_contra hold
      have hnone := hnew.2 ((h.hasAccount_iff _).2 hold)
      rw [hk] at hnone
      cases hnone
    have hempty := hL _ hold
    have hzero := U128.toFr_eq_zero (hop l2key hk hay)
    exact ⟨by rw [Entry.balance_of_unkeyed hold, hzero, add_zero], hempty⟩

/-- A transfer keeps the entries readable: a receiver left without a key is credited nothing. -/
theorem transfer_readable (h : Shows s L) (hL : ∀ a, (L.entry a).Readable)
    {schedule : Shuffle Task} {tx : TransferTx} {offset : Option ℤ} {rawTx : RawTx}
    (hop : (Op.transfer schedule tx offset).KeepsReads s)
    (hr : s.transfer schedule tx offset = .ok (rawTx, s')) :
    ∃ L', Shows s' L' ∧ ∀ a, (L'.entry a).Readable := by
  obtain ⟨hcan, htrans, -⟩ := transfer_spec h hr
  obtain ⟨e, he, hay⟩ := hcan.keyed
  -- A receiver that has no key after the transfer holds nothing, and is credited nothing.
  have hto (hay : (tx.l2key.map L2Key.ay).getD (L.entry tx.toId).state.ay = 0) :
      tx.amount.toFr = 0 ∧ (L.entry tx.toId).Empty := by
    rw [Op.KeepsReads] at hop
    cases hk : tx.l2key with
    | none =>
      rw [hk] at hop hay
      exact ⟨U128.toFr_eq_zero (hop.resolve_left fun hhas => (h.hasAccount_iff _).1 hhas hay),
        hL _ hay⟩
    | some l2key =>
      rw [hk] at hop hay
      obtain ⟨hzero, hempty⟩ := hop hay
      refine ⟨U128.toFr_eq_zero hzero, fun token htoken => ?_⟩
      rw [← h.balanceLeaf_eq _ htoken, hempty token htoken]
  rcases eq_or_ne tx.fromId tx.toId with heq | hne
  · obtain ⟨updates, hupdates, h'⟩ := htrans.eq heq
    refine ⟨_, h', Ledger.forall_set hL ?_ _⟩
    refine .of_put (e := L.entry tx.toId) (balanceTree_setNewL2Addr _ _) fun hay' => ?_
    rw [setNewL2Addr_ay] at hay'
    obtain ⟨hzero, hempty⟩ := hto hay'
    refine ⟨?_, hempty⟩
    rcases hupdates with rfl | rfl <;>
      simp +contextual [Entry.sent, Entry.received, hzero, hempty.balance_eq]
  · have hfrom : ((L.entry tx.fromId).send tx).Readable := by
      refine .of_keyed ?_
      rw [Ledger.entry_of_some he]
      exact hay
    refine ⟨_, htrans.ne hne,
      Ledger.forall_set (Ledger.forall_set hL hfrom _) ?_ _⟩
    · refine .of_put (e := L.entry tx.toId) (balanceTree_setNewL2Addr _ _) fun hay' => ?_
      rw [setNewL2Addr_ay] at hay'
      obtain ⟨hzero, hempty⟩ := hto hay'
      refine ⟨?_, hempty⟩
      simp +contextual [hzero, hempty.balance_eq]

/-- The operations that may be done keep accounts without a key empty. -/
theorem apply_readable (h : Shows s L) (hL : ∀ a, (L.entry a).Readable) {op : Op}
    (hop : op.KeepsReads s) {raw : Option RawTx} (hr : s.apply op = .ok (raw, s')) :
    ∃ L', Shows s' L' ∧ ∀ a, (L'.entry a).Readable := by
  cases GlobalState.applied hr with
  | createNewAccount hr =>
    rcases createNewAccount_spec h hr with rfl | ⟨b, -, -, h'⟩
    · exact ⟨L, h, hL⟩
    · exact ⟨_, h', Ledger.forall_set hL (.create lv _) b⟩
  | @setAccountL2Addr b sign ay _ hr =>
    obtain ⟨e, he, h'⟩ := setAccountL2Addr_spec h hr
    -- The key is only cleared for an account that holds nothing.
    refine ⟨_, h', Ledger.forall_set hL (fun hay token htoken => ?_) b⟩
    have hleaf := hop hay token htoken
    rw [h.balanceLeaf_eq b htoken, Ledger.entry_of_some he] at hleaf
    exact hleaf
  | @setAccountNonce b _ _ hr =>
    obtain ⟨e, he, h'⟩ := setAccountNonce_spec h hr
    exact ⟨_, h', Ledger.forall_readable_set hL he rfl rfl⟩
  | @setAccountOrder b _ _ _ hr =>
    obtain ⟨e, t, he, -, -, h'⟩ := setAccountOrder_spec h hr
    exact ⟨_, h', Ledger.forall_readable_set hL he rfl rfl⟩
  | @setTokenBalance b _ v _ hr =>
    obtain ⟨t, ht, h'⟩ := setTokenBalance_spec h hr
    refine ⟨_, h', Ledger.forall_set hL ?_ b⟩
    refine .of_set ht fun hay => ⟨?_, hL b hay⟩
    exact hop.resolve_left fun hhas => (h.hasAccount_iff b).1 hhas hay
  | @keyUpdate tx _ _ _ hr =>
    rcases keyUpdate_spec h hr with ⟨-, rfl⟩ | ⟨hnew, t, ht, h', -⟩
    · exact ⟨L, h, hL⟩
    · -- The account held nothing before it got its key.
      have hay := not_not.1 fun hay => hnew ((h.hasAccount_iff tx.accountId).2 hay)
      exact ⟨_, h', Ledger.forall_set hL (.of_set ht fun _ => ⟨rfl, hL _ hay⟩) _⟩
  | deposit hr => exact deposit_readable h hL hop hr
  | transfer hr => exact transfer_readable h hL hop hr
  | @withdraw tx _ _ _ hr =>
    obtain ⟨t, ht, h', -⟩ := withdraw_spec h hr
    refine ⟨_, h', Ledger.forall_set hL ?_ _⟩
    refine .of_set ht fun hay => ⟨?_, hL _ hay⟩
    have hzero := U128.toFr_eq_zero (hop.resolve_left fun hhas => (h.hasAccount_iff _).1 hhas hay)
    -- Without a key, the balance that is read is zero, and so is the amount.
    rw [Entry.balance_of_unkeyed (e := L.entry tx.accountId) hay, hzero, sub_zero]
  | fullSpotTrade hr =>
    obtain ⟨T, e1', e2', hT, h1, h2, h', -⟩ := fullSpotTrade_spec h hr
    have hread1 : e1'.Readable := .of_keyed (by rw [h1.state_eq]; exact hT.keyed1)
    have hread2 : e2'.Readable := .of_keyed (by rw [h2.state_eq]; exact hT.keyed2)
    exact ⟨_, h', Ledger.forall_set (Ledger.forall_set hL hread1 _) hread2 _⟩
  | @cancelOrder b _ _ hr =>
    obtain ⟨e, pos, order, he, -, -, h'⟩ := cancelOrder_spec h hr
    exact ⟨_, h', Ledger.forall_readable_set hL he rfl rfl⟩
  | nop | flushWithNop | popAllBlocks => exact ⟨L, h, hL⟩

/-- What is read is what the trees hold, in every state reached by operations after which
    accounts without a key hold nothing. -/
theorem readsLeaves_of_keepsReads {n : Node lv} {nTx persistEveryNBlock : ℕ}
    {blockOffset : Option ℕ}
    (hn : Exec.Reachable Node.step (fun n op => op.KeepsReads n.state)
      (Node.new lv nTx blockOffset persistEveryNBlock) n) : n.state.ReadsLeaves := by
  suffices hinv : ∃ L, Shows n.state L ∧ ∀ a, (L.entry a).Readable by
    obtain ⟨L, h, hL⟩ := hinv
    exact h.readsLeaves_iff.2 hL
  refine hn.invariant ⟨_, shows_new lv, fun _ => .create lv _⟩ ?_
  rintro m op m' - ⟨L, h, hL⟩ hop hst
  obtain ⟨raw, hr⟩ := Node.step_state hst
  exact apply_readable h hL hop hr

end Keys

/-- A transfer of twenty units to the account `1`, with a key that is not that of the account. -/
def twentyWithKey : TransferTx := { twentyFrom0 1 with l2key := some ⟨3, 1, 7⟩ }

attribute [local instance] FluidexCommon.sample in
/-- The transfer has no key, so the receiver keeps its own. -/
theorem keyOf_kept_iff_twenty :
    ∃ n n', Exec.run Node.step (Node.new Levels.small 2 none 9) fundedOps = .ok n ∧
      Exec.run Node.step n [.transfer .id (twentyFrom0 1) none] = .ok n' ∧
      ((∀ k m, Exec.run Node.step n ([Op.transfer .id (twentyFrom0 1) none].take k) = .ok m →
          m.state.keyOf 1 = n.state.keyOf 1) ↔
        ∀ k m op, Exec.run Node.step n ([Op.transfer .id (twentyFrom0 1) none].take k) = .ok m →
          [Op.transfer .id (twentyFrom0 1) none][k]? = some op → op.KeepsKey m.state 1) := by
  obtain ⟨⟨n, n'⟩, hn⟩ := Exec.exists_eq_ok (do
    let n ← Exec.run Node.step (Node.new Levels.small 2 none 9) fundedOps
    assert (n.state.hasAccount 1) "key"
    let n' ← Exec.run Node.step n [.transfer .id (twentyFrom0 1) none]
    pure (n, n')) (by decide +kernel)
  simp only [Exec.bind_eq_ok_iff, Exec.assert_eq_ok_iff, Exec.pure_eq_ok_iff, Prod.mk.injEq] at hn
  obtain ⟨n, hn, _, ha, n', hn', rfl, rfl⟩ := hn
  exact ⟨n, n', hn, hn',
    keyOf_kept_iff (Exec.Reachable.init.run (fun _ _ _ => trivial) hn) ha hn'⟩

attribute [local instance] FluidexCommon.sample in
/-- A transfer that comes with a key takes the account of its receiver over. -/
theorem not_keyOf_kept_twentyWithKey :
    ∃ n n', Exec.run Node.step (Node.new Levels.small 2 none 9) fundedOps = .ok n ∧
      n.state.hasAccount 1 ∧ n.step (.transfer .id twentyWithKey none) = .ok n' ∧
      n.state.keyOf 1 = (0, 6) ∧ n'.state.keyOf 1 = (1, 7) := by
  obtain ⟨⟨n, n'⟩, hn⟩ := Exec.exists_eq_ok (do
    let n ← Exec.run Node.step (Node.new Levels.small 2 none 9) fundedOps
    let n' ← n.step (.transfer .id twentyWithKey none)
    assert (n.state.hasAccount 1 ∧ n.state.keyOf 1 = (0, 6) ∧ n'.state.keyOf 1 = (1, 7)) "keys"
    pure (n, n')) (by decide +kernel)
  simp only [Exec.bind_eq_ok_iff, Exec.assert_eq_ok_iff, Exec.pure_eq_ok_iff, Prod.mk.injEq] at hn
  obtain ⟨n, hn, n', hn', _, ⟨ha, hold, hnew⟩, rfl, rfl⟩ := hn
  exact ⟨n, n', hn, ha, hn', hold, hnew⟩

attribute [local instance] FluidexCommon.sample in
/-- Two accounts with keys, one of which holds something. -/
theorem readsLeaves_fundedOps :
    ∃ n, Exec.run Node.step (Node.new Levels.small 2 none 9) fundedOps = .ok n ∧
      n.state.ReadsLeaves := by
  obtain ⟨n, hn⟩ := Exec.exists_eq_ok (Exec.run
    (Exec.guarded Node.step .unwrap fun n op => op.KeepsReads n.state)
    (Node.new Levels.small 2 none 9) fundedOps) (by decide +kernel)
  obtain ⟨hreach, hrun⟩ := Exec.Reachable.init.of_guarded hn
  exact ⟨n, hrun, readsLeaves_of_keepsReads hreach⟩

/-- Twenty units of the token `0` for the account `1`, before it has a key. -/
def earlyOps : List Op :=
  [.keyUpdate ⟨0, ⟨1, 1, 5⟩⟩ none, .createNewAccount 1, .deposit ⟨0, 0, 90, none⟩ none,
    .transfer .id ⟨0, 1, 0, 20, 0, .default, none⟩ none]

attribute [local instance] FluidexCommon.sample in
/-- What an account receives before it has a key is not read, and lost when it gets one. -/
theorem not_readsLeaves_earlyOps :
    ∃ n n', Exec.run Node.step (Node.new Levels.small 2 none 9) earlyOps = .ok n ∧
      n.step (.keyUpdate ⟨1, ⟨2, 0, 6⟩⟩ none) = .ok n' ∧
      n.state.getTokenBalance 1 0 = .ok 0 ∧ n.state.balanceLeaf 1 0 = 20 ∧
      n'.state.balanceLeaf 1 0 = 0 ∧ ¬n.state.ReadsLeaves := by
  obtain ⟨⟨n, n'⟩, hn⟩ := Exec.exists_eq_ok (do
    let n ← Exec.run Node.step (Node.new Levels.small 2 none 9) earlyOps
    let n' ← n.step (.keyUpdate ⟨1, ⟨2, 0, 6⟩⟩ none)
    let balance ← n.state.getTokenBalance 1 0
    assert (balance = 0 ∧ n.state.balanceLeaf 1 0 = 20 ∧ n'.state.balanceLeaf 1 0 = 0) "balances"
    pure (n, n')) (by decide +kernel)
  simp only [Exec.bind_eq_ok_iff, Exec.assert_eq_ok_iff, Exec.pure_eq_ok_iff, Prod.mk.injEq] at hn
  obtain ⟨n, hn, n', hn', balance, hread, _, ⟨rfl, hleaf, hleaf'⟩, rfl, rfl⟩ := hn
  refine ⟨n, n', hn, hn', hread, hleaf, hleaf', fun hs => ?_⟩
  have hsame := hs 1 0 (by decide)
  rw [hread, hleaf] at hsame
  exact absurd (Except.ok.inj hsame) (by decide)

end Rollup
