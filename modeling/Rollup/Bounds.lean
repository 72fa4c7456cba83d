import Rollup.Trading
import Rollup.Tree.Checked

/-!
# Indices that are not checked

The index of a leaf is checked when the leaf is written on its own, unless its value is what is
read there, and not when leaves are written by chunks (`Tree.rejects_iff`). The balances of
transfers and trades are written by chunks, at the indices of their tokens. So whether they are
accepted does not depend on the tokens being in range: a transfer needs a sender with a key, who
has the amount as the balance is read, and a receiver (`exists_transfer_iff`); a trade needs what
`GlobalState.CanTrade` says.
-/

namespace Rollup

section Bounds

variable [FluidexCommon] {lv : Levels} {s : GlobalState lv} {L : Ledger lv}
  {schedule : Shuffle Task} {offset : Option ℤ}

/-- What a transfer needs: a sender with a key, who has the amount as the balance is read, and a
    receiver. -/
structure GlobalState.CanTransfer (s : GlobalState lv) (tx : TransferTx) : Prop where
  keyed : s.hasAccount tx.fromId
  funds : ∀ b, s.getTokenBalance tx.fromId tx.tokenId = .ok b → tx.amount.toFr.val ≤ b.val
  receiver : tx.toId ∈ s.accountStates

/-- The transfers that are accepted, whatever the token. -/
theorem exists_transfer_iff (h : Shows s L) {tx : TransferTx} :
    (∃ r, s.transfer schedule tx offset = .ok r) ↔ s.CanTransfer tx := by
  constructor
  · rintro ⟨⟨rawTx, s'⟩, hr⟩
    obtain ⟨⟨⟨e, he, hay⟩, hfunds, f, hf⟩, -⟩ := transfer_spec h hr
    refine ⟨(h.hasAccount_iff _).2 (Ledger.entry_of_some he ▸ hay), fun b hb => ?_, ?_⟩
    · rw [h.getTokenBalance_eq, Except.ok.injEq] at hb
      exact hb ▸ hfunds
    · rw [h.mem_accountStates, hf]
      rfl
  · rintro ⟨hkeyed, hfunds, hto⟩
    obtain ⟨rawTx, s', hr⟩ := exists_transfer h ⟨h.exists_of_hasAccount hkeyed,
      hfunds _ (h.getTokenBalance_eq _ _), Option.isSome_iff_exists.1 (h.mem_accountStates.1 hto)⟩
      schedule
    exact ⟨_, hr⟩

/-- When indices out of range are rejected: by a tree, if the leaf is written on its own and is
    not what is read already; by a transfer or a trade, if it would be rejected with any token.
    The parents are the hashes of their children in every tree whose chunks are in range. -/
theorem outOfRange_rejected_iff (lv : Levels) :
    (∀ (h : ℕ) (t : Tree h) (i : ℕ) (v : Fr) (parallel : ℕ), 2 ^ h ≤ i →
      (t.Rejects i v parallel ↔ parallel = 1 ∧ t.getLeaf i ≠ v) ∧
      ∀ t', t.setValue i v = .ok t' → t' = t) ∧
    (∀ (h : ℕ) (v₀ : Fr) (t₀ t : Tree h), Tree.new h v₀ = .ok t₀ →
      Exec.Reachable Tree.call (fun _ c => c.Checked h) t₀ t → t.IsMerkle) ∧
    ∀ (n : Node lv) (nTx persistEveryNBlock : ℕ) (blockOffset : Option ℕ),
      Exec.Reachable Node.step (fun _ _ => True)
        (Node.new lv nTx blockOffset persistEveryNBlock) n →
      (∀ schedule tx offset,
        (∃ p, n.state.transfer schedule tx offset = .error p) ↔ ¬n.state.CanTransfer tx) ∧
      ∀ schedule tx offset, (∃ p, n.state.fullSpotTrade schedule tx offset = .error p) ↔
        ¬∃ order1 order2, n.state.CanTrade tx order1 order2 := by
  refine ⟨fun h t i v parallel hi => ⟨t.rejects_iff hi v parallel, fun t' ht' => ?_⟩,
    fun h v₀ t₀ t hnew ht => Tree.isMerkle_of_checked hnew ht,
    fun n nTx persistEveryNBlock blockOffset hn => ⟨fun schedule tx offset => ?_,
      fun schedule tx offset => ?_⟩⟩
  · -- The leaf has the value already, or the index is refused.
    rw [t.setValue_of_le hi] at ht'
    split at ht'
    · exact (Except.ok.inj ht').symm
    · cases ht'
  · obtain ⟨L, h⟩ := Node.exists_shows hn
    rw [Exec.exists_error_iff, exists_transfer_iff h]
  · obtain ⟨L, h, hL⟩ := exists_tidy hn
    rw [Exec.exists_error_iff, exists_fullSpotTrade_iff h hL]

end Bounds

attribute [local instance] FluidexCommon.sample

/-- A leaf out of range that is rejected, and a transfer by an account without a key. -/
theorem outOfRange_rejected_iff_sample :
    (Tree.empty 2 0).Rejects 4 9 1 ∧
      ∃ n, Exec.run Node.step (Node.new Levels.small 2 none 9) traders = .ok n ∧
        ∃ p, n.state.transfer .id ⟨2, 1, 4, 1, 0, .default, none⟩ none = .error p := by
  obtain ⟨n, hn⟩ := Exec.exists_eq_ok (do
    let n ← Exec.run Node.step (Node.new Levels.small 2 none 9) traders
    assert (¬n.state.hasAccount 2) "no key"
    pure n) (by decide +kernel)
  simp only [Exec.bind_eq_ok_iff, Exec.assert_eq_ok_iff, Exec.pure_eq_ok_iff] at hn
  obtain ⟨n, hrun, _, hkey, rfl⟩ := hn
  obtain ⟨htree, -, hnode⟩ := outOfRange_rejected_iff Levels.small
  refine ⟨((htree 2 (Tree.empty 2 0) 4 9 1 (by decide)).1).2 ⟨rfl, by decide⟩, n, hrun, ?_⟩
  have hn := Exec.Reachable.init.run (fun _ _ _ => trivial) hrun
  exact ((hnode n 2 9 none hn).1 _ _ _).2 fun hcan => hkey hcan.keyed

/-- The node above the leaves `0` and `1` has the index `4`: it is overwritten by a chunk, and by
    a transfer and a trade of the token `4`. A default leaf is not checked at all. -/
theorem not_outOfRange_rejected :
    (∃ t : Tree 2, (Tree.empty 2 0).setValueParallel [(4, 9)] 2 = .ok t ∧ ¬t.IsMerkle) ∧
      (Tree.empty 2 0).setValue 4 0 = .ok (Tree.empty 2 0) ∧
      ∃ n, Exec.run Node.step (Node.new Levels.small 2 none 9) traders = .ok n ∧
        (∃ rawTx s' t, n.state.transfer .id ⟨0, 1, 4, 1, 0, .default, none⟩ none = .ok (rawTx, s') ∧
          s'.balanceTrees.lookup 0 = some t ∧ ¬t.IsMerkle) ∧
        ∃ rawTx s' t, n.state.fullSpotTrade .id
            ⟨⟨0, 1, 1, 4, 5, 6, 3, 4⟩, some makerOrder, some takerOrder⟩ none = .ok (rawTx, s') ∧
          s'.balanceTrees.lookup 0 = some t ∧ ¬t.IsMerkle := by
  have hnot {t : Tree 2} (ht : t.getValue 1 0 ≠ Tree.hash2 (t.getValue 0 0) (t.getValue 0 1)) :
      ¬t.IsMerkle := fun hM => ht (hM 0 (by decide) 0 (by decide))
  refine ⟨?_, rfl, ?_⟩
  · exact ⟨_, rfl, hnot (by decide +kernel)⟩
  · obtain ⟨⟨n, r1, r2⟩, hn⟩ := Exec.exists_eq_ok (do
      let n ← Exec.run Node.step (Node.new Levels.small 2 none 9) traders
      let r1 ← n.state.transfer .id ⟨0, 1, 4, 1, 0, .default, none⟩ none
      let t1 ← unwrap (r1.2.balanceTrees.lookup 0)
      assert (t1.getValue 1 0 ≠ Tree.hash2 (t1.getValue 0 0) (t1.getValue 0 1)) "overwritten"
      let r2 ← n.state.fullSpotTrade .id
        ⟨⟨0, 1, 1, 4, 5, 6, 3, 4⟩, some makerOrder, some takerOrder⟩ none
      let t2 ← unwrap (r2.2.balanceTrees.lookup 0)
      assert (t2.getValue 1 0 ≠ Tree.hash2 (t2.getValue 0 0) (t2.getValue 0 1)) "overwritten"
      pure (n, r1, r2)) (by decide +kernel)
    simp only [Exec.bind_eq_ok_iff, Exec.assert_eq_ok_iff, Exec.unwrap_eq_ok_iff,
      Exec.pure_eq_ok_iff, Prod.mk.injEq] at hn
    obtain ⟨n, hrun, r1, hr1, t1, ht1, _, hne1, r2, hr2, t2, ht2, _, hne2, rfl, rfl, rfl⟩ := hn
    exact ⟨n, hrun, ⟨r1.1, r1.2, t1, hr1, ht1, hnot hne1⟩, r2.1, r2.2, t2, hr2, ht2, hnot hne2⟩

end Rollup
