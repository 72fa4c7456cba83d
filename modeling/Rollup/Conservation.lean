import Rollup.Balances

/-!
# Conservation of value by transfers

A transfer reads both balances before it writes either, and writes them by tasks
that run in parallel. If the accounts are different, the tasks are on different
trees, and value is conserved; but nothing keeps a transfer from having the same
account on both sides, whose balance is then the last one to be written, i.e., it
has lost or won the amount (`transfer_balances`, `conserves_iff`).
-/

namespace Rollup

section Conservation

variable [FluidexCommon] {lv : Levels} {s s' : GlobalState lv} {L : Ledger lv} {offset : Option ℤ}

/-! ## The balances after a transfer -/

omit [FluidexCommon] in
theorem balanceTree_setNewL2Addr (e : Entry lv) (l2key : Option L2Key) :
    (e.setNewL2Addr l2key).balanceTree = e.balanceTree := by
  cases l2key <;> rfl

/-- The balances after a transfer. If the accounts are the same, the last of the two
    balances to be written counts. -/
structure TransferBalances (L : Ledger lv) (tx : TransferTx) (s' : GlobalState lv) : Prop where
  ne : tx.fromId ≠ tx.toId → ∀ a token, token < 2 ^ lv.balanceLevels → s'.balanceOf a token =
    if token = tx.tokenId then
      if a = tx.toId then (L.entry tx.toId).balance tx.tokenId + tx.amount.toFr
      else if a = tx.fromId then (L.entry tx.fromId).balance tx.tokenId - tx.amount.toFr
      else (L.entry a).balanceTree.getLeaf token
    else (L.entry a).balanceTree.getLeaf token
  eq : tx.fromId = tx.toId → ∃ v, (v = (L.entry tx.toId).balance tx.tokenId - tx.amount.toFr ∨
      v = (L.entry tx.toId).balance tx.tokenId + tx.amount.toFr) ∧
    ∀ a token, token < 2 ^ lv.balanceLevels → s'.balanceOf a token =
      if token = tx.tokenId ∧ a = tx.toId then v else (L.entry a).balanceTree.getLeaf token

theorem transfer_balances (h : Shows s L) {schedule : Shuffle Task} {tx : TransferTx}
    {rawTx : RawTx} (hr : s.transfer schedule tx offset = .ok (rawTx, s')) :
    L.CanTransfer tx ∧ TransferBalances L tx s' := by
  obtain ⟨hcan, htrans, -⟩ := transfer_spec h hr
  refine ⟨hcan, fun hft => ?_, fun hft => ?_⟩
  · have h' := htrans.ne hft
    intro a token htoken
    rw [h'.balanceOf_eq a htoken, Ledger.entry_set, Ledger.entry_set]
    -- One of the two accounts, or another one.
    rcases eq_or_ne a tx.toId with rfl | hto
    · rw [if_pos rfl, if_pos rfl, balanceTree_setNewL2Addr]
      refine ((L.entry tx.toId).getLeaf_putBalances _ htoken).trans ?_
      simp only [writes_cons, writes_nil, Function.update_apply]
    rcases eq_or_ne a tx.fromId with rfl | hfrom
    · rw [if_neg hto, if_neg hto, if_pos rfl, if_pos rfl]
      refine ((L.entry tx.fromId).getLeaf_putBalances _ htoken).trans ?_
      simp only [writes_cons, writes_nil, Function.update_apply]
    · rw [if_neg hto, if_neg hto, if_neg hfrom, if_neg hfrom, ite_self]
  · obtain ⟨updates, hupdates, h'⟩ := htrans.eq hft
    -- The last of the two writes is the one that counts.
    obtain ⟨v, hv, hwrites⟩ : ∃ v, (v = (L.entry tx.toId).balance tx.tokenId - tx.amount.toFr ∨
        v = (L.entry tx.toId).balance tx.tokenId + tx.amount.toFr) ∧
        ∀ leaf : ℕ → Fr, writes updates leaf = Function.update leaf tx.tokenId v := by
      rcases hupdates with rfl | rfl
      · exact ⟨_, .inr rfl, fun leaf => Function.update_idem _ _ leaf⟩
      · exact ⟨_, .inl rfl, fun leaf => Function.update_idem _ _ leaf⟩
    refine ⟨v, hv, fun a token htoken => ?_⟩
    rw [h'.balanceOf_eq a htoken, Ledger.entry_set]
    rcases eq_or_ne a tx.toId with rfl | hto
    · rw [if_pos rfl, balanceTree_setNewL2Addr]
      refine ((L.entry tx.toId).getLeaf_putBalances updates htoken).trans ?_
      rw [hwrites, Function.update_apply]
      simp only [and_true]
    · rw [if_neg hto, if_neg fun hc => hto hc.2]

/-- The balances of the other accounts, and those in other tokens, are kept. -/
theorem TransferBalances.others {tx : TransferTx} (ht : TransferBalances L tx s') (h : Shows s L)
    {a token : ℕ} (hne : (a ≠ tx.fromId ∧ a ≠ tx.toId) ∨ token ≠ tx.tokenId) :
    s'.balanceOf a token = s.balanceOf a token := by
  refine GlobalState.balanceOf_congr fun htoken => ?_
  rw [h.balanceOf_eq a htoken]
  rcases eq_or_ne tx.fromId tx.toId with heq | hft
  · obtain ⟨v, -, hv⟩ := ht.eq heq
    rw [hv a token htoken, if_neg]
    rintro ⟨rfl, rfl⟩
    simp at hne
  · rw [ht.ne hft a token htoken]
    rcases eq_or_ne token tx.tokenId with rfl | htne
    · obtain ⟨haf, hat⟩ := hne.resolve_right fun hc => hc rfl
      rw [if_pos rfl, if_neg hat, if_neg haf]
    · rw [if_neg htne]

/-! ## Conservation -/

/-- Value is conserved: the total of the token is kept, only the balances of the
    two accounts in the token change, and if they are different one loses what the
    other one gains. -/
structure GlobalState.Conserves (s : GlobalState lv) (tx : TransferTx) (s' : GlobalState lv) :
    Prop where
  total : s'.totalOf tx.tokenId = s.totalOf tx.tokenId
  others : ∀ a token, (a ≠ tx.fromId ∧ a ≠ tx.toId) ∨ token ≠ tx.tokenId →
    s'.balanceOf a token = s.balanceOf a token
  moved : tx.fromId ≠ tx.toId →
    (s'.balanceOf tx.fromId tx.tokenId).val + tx.amount.toNat =
        (s.balanceOf tx.fromId tx.tokenId).val ∧
      (s'.balanceOf tx.toId tx.tokenId).val =
        (s.balanceOf tx.toId tx.tokenId).val + tx.amount.toNat

/-- The transfers that conserve value. For a token with leaves: if the accounts are
    the same, nothing is transferred; if they are different, the receiver has a key,
    or no balance, and the sum is smaller than the field. For a token without leaves:
    the accounts are the same, or nothing is transferred. -/
def GlobalState.SafeTransfer (s : GlobalState lv) (tx : TransferTx) : Prop :=
  if tx.tokenId < 2 ^ lv.balanceLevels then
    (tx.fromId = tx.toId → tx.amount.toNat = 0) ∧
    (tx.fromId ≠ tx.toId →
      (s.hasAccount tx.toId ∨ s.balanceOf tx.toId tx.tokenId = 0) ∧
      (s.balanceOf tx.toId tx.tokenId).val + tx.amount.toNat < Fr.modulus)
  else tx.fromId = tx.toId ∨ tx.amount.toNat = 0

/-- A transfer of a token without leaves writes no balance. -/
theorem conserves_iff_of_le (h : Shows s L) {tx : TransferTx} (ht : TransferBalances L tx s')
    (htoken : ¬tx.tokenId < 2 ^ lv.balanceLevels) :
    s.Conserves tx s' ↔ tx.fromId = tx.toId ∨ tx.amount.toNat = 0 := by
  have hother : ∀ a token, s'.balanceOf a token = s.balanceOf a token := by
    intro a token
    refine GlobalState.balanceOf_congr fun hlt => ht.others h (.inr ?_)
    rintro rfl
    exact htoken hlt
  constructor
  · intro hc
    rcases eq_or_ne tx.fromId tx.toId with heq | hft
    · exact .inl heq
    · have hmoved := (hc.moved hft).2
      rw [hother] at hmoved
      exact .inr (by omega)
  · intro hc
    refine ⟨?_, fun a token _ => hother a token, fun hft => ?_⟩
    · simp only [GlobalState.totalOf, hother]
    · rw [hother, hother]
      have := hc.resolve_left hft
      omega

/-- The balance of an account on both sides is kept only if nothing is transferred. -/
theorem conserves_iff_of_eq (h : Shows s L) {tx : TransferTx} (hcan : L.CanTransfer tx)
    (ht : TransferBalances L tx s') (htoken : tx.tokenId < 2 ^ lv.balanceLevels)
    (heq : tx.fromId = tx.toId) : s.Conserves tx s' ↔ tx.amount.toNat = 0 := by
  obtain ⟨v, hv, hbal⟩ := ht.eq heq
  obtain ⟨e, he, hay⟩ := hcan.keyed
  rw [heq] at he
  have hold : (L.entry tx.toId).balance tx.tokenId = s.balanceOf tx.toId tx.tokenId := by
    rw [h.balanceOf_eq _ htoken, Entry.balance, if_neg (by rwa [Ledger.entry_of_some he])]
  rw [hold] at hv
  have hto : s'.balanceOf tx.toId tx.tokenId = v := by rw [hbal _ _ htoken, if_pos ⟨rfl, rfl⟩]
  have htotal : s'.totalOf tx.tokenId = s.totalOf tx.tokenId ↔
      v.val = (s.balanceOf tx.toId tx.tokenId).val := by
    rw [← hto]
    exact sum_eq_iff_of_one (Finset.mem_range.2 (h.lt he)) fun a ha =>
      congrArg ZMod.val (ht.others h (.inl ⟨heq ▸ ha, ha⟩))
  -- Whichever of the two balances was written last, it is the old one only if nothing was
  -- transferred.
  have hzero : v.val = (s.balanceOf tx.toId tx.tokenId).val ↔ tx.amount.toNat = 0 := by
    rw [(ZMod.val_injective _).eq_iff, ← U128.toFr_val, ZMod.val_eq_zero]
    rcases hv with rfl | rfl
    · exact sub_eq_self
    · exact add_eq_left
  constructor
  · exact fun hc => hzero.1 (htotal.1 hc.total)
  · intro hc
    exact ⟨htotal.2 (hzero.2 hc), fun a token hne => ht.others h hne, fun hft => absurd heq hft⟩

/-- Between two accounts, only the receiver may be wronged. -/
theorem conserves_iff_of_ne (h : Shows s L) {tx : TransferTx} (hcan : L.CanTransfer tx)
    (ht : TransferBalances L tx s') (htoken : tx.tokenId < 2 ^ lv.balanceLevels)
    (hft : tx.fromId ≠ tx.toId) : s.Conserves tx s' ↔
      (s.hasAccount tx.toId ∨ s.balanceOf tx.toId tx.tokenId = 0) ∧
      (s.balanceOf tx.toId tx.tokenId).val + tx.amount.toNat < Fr.modulus := by
  have hbal := ht.ne hft
  obtain ⟨e, he, hay⟩ := hcan.keyed
  obtain ⟨f, hf⟩ := hcan.receiver
  have hhas : s.hasAccount tx.fromId := (h.hasAccount_iff _).2 (by rwa [Ledger.entry_of_some he])
  have hfunds := hcan.funds
  have hfrom : s'.balanceOf tx.fromId tx.tokenId =
      s.balanceOf tx.fromId tx.tokenId - tx.amount.toFr := by
    rw [hbal _ _ htoken, if_pos rfl, if_neg hft, if_pos rfl, h.entry_balance_eq _ htoken,
      if_pos hhas]
  have hto : s'.balanceOf tx.toId tx.tokenId =
      (if s.hasAccount tx.toId then s.balanceOf tx.toId tx.tokenId else 0) + tx.amount.toFr := by
    rw [hbal _ _ htoken, if_pos rfl, if_pos rfl, h.entry_balance_eq _ htoken]
  -- The sender has the funds, so it loses exactly the amount.
  have hlost : (s'.balanceOf tx.fromId tx.tokenId).val + tx.amount.toNat =
      (s.balanceOf tx.fromId tx.tokenId).val := by
    rw [h.entry_balance_eq _ htoken, if_pos hhas] at hfunds
    rw [hfrom, ZMod.val_sub hfunds, U128.toFr_val]
    rw [U128.toFr_val] at hfunds
    omega
  have hgained : (s'.balanceOf tx.toId tx.tokenId).val =
      (s.balanceOf tx.toId tx.tokenId).val + tx.amount.toNat ↔
      (s.hasAccount tx.toId ∨ s.balanceOf tx.toId tx.tokenId = 0) ∧
      (s.balanceOf tx.toId tx.tokenId).val + tx.amount.toNat < Fr.modulus := by
    rw [hto, ← U128.toFr_val]
    by_cases hkey : s.hasAccount tx.toId
    · rw [if_pos hkey, Fr.val_add_eq_iff]
      simp [hkey]
    · rw [if_neg hkey, zero_add, ← ZMod.val_eq_zero]
      have hlt := ZMod.val_lt tx.amount.toFr
      simp only [hkey, false_or]
      omega
  rw [← hgained]
  constructor
  · exact fun hc => (hc.moved hft).2
  · intro hg
    refine ⟨?_, fun a token => ht.others h, fun _ => ⟨hlost, hg⟩⟩
    refine sum_eq_of_two (Finset.mem_range.2 (h.lt he)) (Finset.mem_range.2 (h.lt hf)) hft
      (fun a haf hat => congrArg ZMod.val (ht.others h (.inl ⟨haf, hat⟩))) ?_
    omega

/-- In every reachable state, an accepted transfer conserves value exactly when it is safe. -/
theorem conserves_iff {n : Node lv} {nTx persistEveryNBlock : ℕ} {blockOffset : Option ℕ}
    (hn : Exec.Reachable Node.step (fun _ _ => True)
      (Node.new lv nTx blockOffset persistEveryNBlock) n)
    {schedule : Shuffle Task} {tx : TransferTx} {rawTx : RawTx}
    (hr : n.state.transfer schedule tx offset = .ok (rawTx, s')) :
    n.state.Conserves tx s' ↔ n.state.SafeTransfer tx := by
  obtain ⟨L, h, -⟩ := exists_committed hn
  obtain ⟨hcan, ht⟩ := transfer_balances h hr
  rw [GlobalState.SafeTransfer]
  split
  · next htoken =>
    rcases eq_or_ne tx.fromId tx.toId with heq | hft
    · rw [conserves_iff_of_eq h hcan ht htoken heq]
      simp [heq]
    · rw [conserves_iff_of_ne h hcan ht htoken hft]
      simp [hft]
  · next htoken => exact conserves_iff_of_le h ht htoken

end Conservation

/-- Two accounts with keys, the first one with ninety units of the token `1`. -/
def fundedOps : List Op :=
  [.keyUpdate ⟨0, ⟨1, 1, 5⟩⟩ none, .deposit ⟨0, 1, 90, none⟩ none, .keyUpdate ⟨1, ⟨2, 0, 6⟩⟩ none]

/-- A transfer of 20 of the token 1, from account 0. -/
def twentyFrom0 (toId : ℕ) : TransferTx := ⟨0, toId, 1, 20, 0, .default, none⟩

attribute [local instance] FluidexCommon.sample in
theorem conserves_iff_twenty :
    ∃ n rawTx s', Exec.run Node.step (Node.new Levels.small 2 none 9) fundedOps = .ok n ∧
      n.state.transfer .id (twentyFrom0 1) none = .ok (rawTx, s') ∧
      (n.state.Conserves (twentyFrom0 1) s' ↔ n.state.SafeTransfer (twentyFrom0 1)) := by
  obtain ⟨⟨n, r⟩, hn⟩ := Exec.exists_eq_ok (do
    let n ← Exec.run Node.step (Node.new Levels.small 2 none 9) fundedOps
    let r ← n.state.transfer .id (twentyFrom0 1) none
    pure (n, r)) (by decide +kernel)
  simp only [Exec.bind_eq_ok_iff, Exec.pure_eq_ok_iff, Prod.mk.injEq] at hn
  obtain ⟨n, hn, ⟨rawTx, s'⟩, hr, -, -⟩ := hn
  exact ⟨n, rawTx, s', hn, hr, conserves_iff (Exec.Reachable.init.run (fun _ _ _ => trivial) hn) hr⟩

attribute [local instance] FluidexCommon.sample in
/-- An account that transfers twenty units to itself wins them. -/
theorem not_conserves_to_self :
    ∃ n rawTx s', Exec.run Node.step (Node.new Levels.small 2 none 9) fundedOps = .ok n ∧
      n.state.transfer .id (twentyFrom0 0) none = .ok (rawTx, s') ∧
      n.state.totalOf 1 = 90 ∧ s'.totalOf 1 = 110 ∧ ¬n.state.Conserves (twentyFrom0 0) s' := by
  obtain ⟨⟨n, r⟩, hn⟩ := Exec.exists_eq_ok (do
    let n ← Exec.run Node.step (Node.new Levels.small 2 none 9) fundedOps
    let r ← n.state.transfer .id (twentyFrom0 0) none
    assert (n.state.totalOf 1 = 90 ∧ r.2.totalOf 1 = 110) "totals"
    pure (n, r)) (by decide +kernel)
  simp only [Exec.bind_eq_ok_iff, Exec.assert_eq_ok_iff, Exec.pure_eq_ok_iff, Prod.mk.injEq] at hn
  obtain ⟨n, hn, ⟨rawTx, s'⟩, hr, _, ⟨hbefore, hafter⟩, -, -⟩ := hn
  refine ⟨n, rawTx, s', hn, hr, hbefore, hafter, fun hc => ?_⟩
  have htotal : s'.totalOf 1 = n.state.totalOf 1 := hc.total
  rw [hbefore, hafter] at htotal
  cases htotal

end Rollup
