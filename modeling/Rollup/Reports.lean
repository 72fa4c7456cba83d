import Rollup.Serving

/-!
# What the queries report

The decoded transactions of the blocks, put one after the other, against what the run has done:
for each transaction that has been accepted, what it is about and the balances before and after it
(`Node.reports`), where a key that is set is reported as a deposit of nothing and a transaction
that only fills a block is not reported.

The report is right as long as each transaction is decoded as what it does (`Op.Reportable`), as
then every block is served with its part of the report (`report_of_run`): the response is there
exactly if the amounts and the balances of its part can be formatted. This leaves out most
transfers: the balance of the receiver is read in the slot of the sender, so the receiver has to
hold after the transfer what the sender held before.
-/

namespace Rollup

open L2BlockQuery

section Reports

variable [FluidexCommon] {lv : Levels} {s s' : GlobalState lv} {L : Ledger lv} {n n' : Node lv}

/-! ## The report of a run -/

/-- What an accepted transaction is reported as. -/
def Op.reported (s s' : GlobalState lv) : Op → DecodedTx
  | .keyUpdate tx _ =>
    { depositTx := some
        { accountId := tx.accountId
          tokenId := 0
          amount := 0
          oldBalance := s.balanceOf tx.accountId 0
          newBalance := s'.balanceOf tx.accountId 0 } }
  | op => op.effect s s'

/-- What is reported of the transactions that are emitted along a run. -/
def Node.reports : Node lv → List Op → List DecodedTx
  | _, [] => []
  | n, op :: ops =>
    match n.step op with
    | .ok n' =>
      List.replicate (n'.emitted.length - n.emitted.length) (op.reported n.state n'.state) ++
        n'.reports ops
    | .error _ => []

/-- A transaction that is decoded as what it does. The sender of a transfer has to hold what the
    receiver will hold. -/
def Op.Reportable (s : GlobalState lv) : Op → Prop
  | .keyUpdate tx _ => s.ReadsBalance tx.accountId 0
  | .deposit tx offset => (Op.deposit tx offset).Queried s ∧ (Op.deposit tx offset).Decodable s
  | .transfer schedule tx offset => (Op.transfer schedule tx offset).Queried s ∧
      (Op.transfer schedule tx offset).Decodable s
  | .withdraw tx offset => (Op.withdraw tx offset).Queried s ∧ (Op.withdraw tx offset).Decodable s
  | .fullSpotTrade schedule tx offset => (Op.fullSpotTrade schedule tx offset).Queried s ∧
      (Op.fullSpotTrade schedule tx offset).Decodable s
  | _ => True

instance (s : GlobalState lv) (tx : FullSpotTradeTx) : Decidable (tx.SellsTokens s) :=
  decidable_of_iff
    ((∀ o, s.takeOrder tx.makerOrder tx.trade.order1AccountId tx.trade.order1Id "order1" = .ok o →
        o.tokenSell = tx.trade.tokenId1to2) ∧
      ∀ o, s.takeOrder tx.takerOrder tx.trade.order2AccountId tx.trade.order2Id "order2" = .ok o →
        o.tokenSell = tx.trade.tokenId2to1)
    ⟨fun h => ⟨h.1, h.2⟩, fun h => ⟨h.order1, h.order2⟩⟩

instance (s : GlobalState lv) (accountId tokenId : ℕ) :
    Decidable (s.ReadsBalance accountId tokenId) :=
  inferInstanceAs (Decidable (_ = _))

instance (s : GlobalState lv) : (op : Op) → Decidable (op.Reportable s)
  | .keyUpdate tx _ => inferInstanceAs (Decidable (s.ReadsBalance tx.accountId 0))
  | .deposit tx _ => inferInstanceAs (Decidable ((tx.l2key = none ∧ tx.tokenId < 2 ^ 32) ∧
      s.ReadsBalance tx.accountId tx.tokenId))
  | .transfer _ tx _ => inferInstanceAs (Decidable ((tx.fromId ≠ tx.toId ∧ tx.tokenId < 2 ^ 32) ∧
      s.ReadsBalance tx.fromId tx.tokenId ∧
      (tx.tokenId < 2 ^ lv.balanceLevels → s.ReadsBalance tx.toId tx.tokenId) ∧
      s.balanceOf tx.fromId tx.tokenId = s.balanceOf tx.toId tx.tokenId + tx.amount.toFr))
  | .withdraw tx _ => inferInstanceAs (Decidable (tx.tokenId < 2 ^ 32 ∧
      s.ReadsBalance tx.accountId tx.tokenId ∧
      (tx.tokenId < 2 ^ lv.balanceLevels ∨ tx.amount.toFr = 0)))
  | .fullSpotTrade _ tx _ => inferInstanceAs (Decidable
      ((tx.trade.tokenId1to2 ≠ tx.trade.tokenId2to1 ∧ tx.SellsTokens s ∧
        tx.trade.tokenId1to2 < 2 ^ 32 ∧ tx.trade.tokenId2to1 < 2 ^ 32) ∧
      tx.trade.tokenId1to2 < 2 ^ lv.balanceLevels ∧ tx.trade.tokenId2to1 < 2 ^ lv.balanceLevels))
  | .createNewAccount _ | .setAccountL2Addr _ _ _ | .setAccountNonce _ _ | .setAccountOrder _ _ _
  | .setTokenBalance _ _ _ | .cancelOrder _ _ | .nop | .flushWithNop | .popAllBlocks =>
    .isTrue trivial

variable [FrToU32]

/-- The decoding of a transaction, from its type and its payload. -/
def RawTx.decode (tx : RawTx) : Except Panic DecodedTx := decodeTx tx.txType tx.payload

/-! ## Steps -/

/-- A key that is set is a deposit of nothing. -/
theorem decodeTx_keyUpdate (hu : FrToU32.Documented) (h : Shows s L) {tx : UpdateKeyTx}
    {offset : Option ℤ} {raw : RawTx} (hread : s.ReadsBalance tx.accountId 0)
    (hr : s.keyUpdate tx offset = .ok (.ok raw, s')) :
    raw.decode = .ok ((Op.keyUpdate tx offset).reported s s') := by
  rcases keyUpdate_spec h hr with ⟨hnone, -⟩ | ⟨hacc, t, ht, h', hraw⟩
  · cases hnone
  obtain rfl := Except.ok.inj hraw
  have hlt := Levels.account_lt_u32 (h'.lt (L.set_self _ _))
  have hzero := hu 0 (by decide)
  rw [Nat.cast_zero] at hzero
  -- no balance is read of an account without a key, and it is set to zero
  have hay : (L.entry tx.accountId).state.ay = 0 := by
    by_contra hay
    exact hacc ((h.hasAccount_iff _).2 hay)
  have hbalance : s.balanceOf tx.accountId 0 = 0 := by
    rw [← (readsBalance_iff h).1 hread]
    exact if_pos hay
  have hnew := balanceOf_set (v := 0) h' ht
  rw [ite_self] at hnew
  change decodeTx .deposit (keyUpdatePayload tx 0 _ 0) = _
  simp only [decodeTx, keyUpdatePayload, Nat.cast_zero, hu _ hlt, hzero, Op.reported, hbalance,
    hnew, Exec.ok_bind]
  rfl

theorem decode_apply (hu : FrToU32.Documented) (h : Shows s L) {op : Op} (hop : op.Reportable s)
    {raw : RawTx} (hr : s.apply op = .ok (some raw, s')) :
    raw.decode = .ok (op.reported s s') := by
  generalize hraw : some raw = r at hr
  cases GlobalState.applied hr with
  | keyUpdate hr =>
    have hok := Exec.toOption_eq_some_iff.1 hraw.symm
    subst hok
    exact decodeTx_keyUpdate hu h hop hr
  | deposit hr =>
    have hok := Exec.toOption_eq_some_iff.1 hraw.symm
    subst hok
    exact (decodeTx_deposit_iff hu h hop.1.1 hop.1.2 hr).2 hop.2
  | withdraw hr =>
    obtain rfl := Option.some.inj hraw
    exact (decodeTx_withdraw_iff hu h hop.1 hr).2 hop.2
  | transfer hr =>
    obtain rfl := Option.some.inj hraw
    exact (decodeTx_transfer_iff hu h hop.1.1 hop.1.2 hr).2 hop.2
  | fullSpotTrade hr =>
    obtain rfl := Option.some.inj hraw
    exact (decodeTx_fullSpotTrade_iff hu h hop.1 hr).2 hop.2
  | nop =>
    obtain rfl := Option.some.inj hraw
    rfl
  | _ => cases hraw

namespace Node

/-- What a step emits is decoded as what it reports. -/
theorem step_reports (hu : FrToU32.Documented) (h : Shows n.state L) {op : Op}
    (hop : op.Reportable n.state) (hst : n.step op = .ok n') :
    ∃ txs, n'.emitted = n.emitted ++ txs ∧
      ∀ tx ∈ txs, tx.decode = .ok (op.reported n.state n'.state) := by
  cases step_stepped hst with
  | flush _ =>
    refine ⟨_, rfl, fun tx htx => ?_⟩
    obtain rfl := List.eq_of_mem_replicate htx
    rfl
  | pop _ => exact ⟨[], (List.append_nil _).symm, List.forall_mem_nil _⟩
  | @apply _ raw _ hr =>
    cases raw with
    | none => exact ⟨[], (List.append_nil _).symm, List.forall_mem_nil _⟩
    | some raw => exact ⟨[raw], rfl, List.forall_mem_singleton.2 (decode_apply hu h hop hr)⟩

/-- What a run emits is decoded as its report. -/
theorem run_reports (hu : FrToU32.Documented) (h : Shows n.state L) {ops : List Op}
    (hops : Exec.Along step (fun m op => op.Reportable m.state) n ops)
    (hrun : Exec.run step n ops = .ok n') :
    ∃ txs, n'.emitted = n.emitted ++ txs ∧ txs.mapM RawTx.decode = .ok (n.reports ops) := by
  induction ops generalizing n L with
  | nil =>
    obtain rfl := Exec.run_nil.1 hrun
    exact ⟨[], (List.append_nil _).symm, rfl⟩
  | cons op ops ih =>
    obtain ⟨n₁, hst, hrun⟩ := Exec.run_cons.1 hrun
    obtain ⟨hop, hops⟩ := hops
    obtain ⟨L₁, h₁⟩ := exists_shows_step ⟨L, h⟩ hst
    obtain ⟨txs, hemitted, htxs⟩ := step_reports hu h hop hst
    obtain ⟨txs', hemitted', htxs'⟩ := ih h₁ (hops _ hst) hrun
    refine ⟨txs ++ txs', by rw [hemitted', hemitted, List.append_assoc], ?_⟩
    -- all that the step emits is decoded alike
    have hstep : txs.mapM RawTx.decode =
        .ok (List.replicate txs.length (op.reported n.state n₁.state)) := by
      rw [Exec.mapM_eq_ok_iff, List.forall₂_iff_get]
      refine ⟨List.length_replicate.symm, fun i hi hi' => ?_⟩
      rw [htxs _ (List.get_mem _ _), List.get_eq_getElem, List.getElem_replicate]
    have hlen : n₁.emitted.length - n.emitted.length = txs.length := by
      rw [hemitted, List.length_append, Nat.add_sub_cancel_left]
    rw [List.mapM_append, hstep, htxs', reports, hst]
    dsimp only
    rw [hlen]
    rfl

end Node

/-! ## Blocks -/

variable [RustDecimal] [DecimalExt] [Formats] [Texts]

omit [FluidexCommon] in
/-- A group of transactions is served with its part of the report. -/
theorem respond_eq_ok_iff {τ : Type} (asMilliseconds : τ → ℤ) {txs : List RawTx}
    {reports : List DecodedTx} (h : txs.mapM RawTx.decode = .ok reports) (row : L2BlockRecord τ)
    (status : BlockStatus) (texts : List L2BlockQueryResponse.DecodedTx) :
    (∃ response, respond asMilliseconds txs row status = .ok response ∧
      response.decodedTxs = texts) ↔ reports.mapM DecodedTx.text = .ok texts := by
  have hmapM : (txs.mapM fun tx => do
      let decodedTx ← decodeTx tx.txType tx.payload
      decodedTx.text) = reports.mapM DecodedTx.text := Exec.mapM_bind_of_eq_ok h
  rw [respond, hmapM]
  constructor
  · rintro ⟨response, hresponse, rfl⟩
    obtain ⟨texts, htexts, hresponse⟩ := Exec.bind_eq_ok_iff.1 hresponse
    rw [← Exec.pure_eq_ok_iff.1 hresponse]
    exact htexts
  · intro htexts
    rw [htexts]
    exact ⟨_, rfl, rfl⟩

/-- **The blocks are served with the report of the run**, whose transactions are decoded as what
    they do: each block with its part, if this can be formatted. -/
theorem report_of_run [Texts.Documented] (hu : FrToU32.Documented) {τ : Type} [LinearOrder τ]
    (asMilliseconds : τ → ℤ) {table later : List (L2BlockRecord τ)} {nTx persistEveryNBlock : ℕ}
    {blockOffset : Option ℕ} {ops : List Op} {reports : List DecodedTx} (hnTx : 0 < nTx)
    (hops : Exec.Along Node.step (fun m op => op.Reportable m.state)
      (Node.new lv nTx blockOffset persistEveryNBlock) ops)
    (hrun : Exec.run Node.step (Node.new lv nTx blockOffset persistEveryNBlock) ops = .ok n)
    (hreports : (Node.new lv nTx blockOffset persistEveryNBlock).reports ops = reports)
    (hids : blockOffset.getD 0 + n.blocks.length ≤ 2 ^ 32) (htable : Saves table n.blocks)
    (hlater : Saves later n.blocks) (i : ℕ) (hi : i < n.blocks.length)
    (texts : List L2BlockQueryResponse.DecodedTx) :
    (∃ response, l2BlockQuery asMilliseconds table later ↑(blockOffset.getD 0 + i) =
        .ok (.ok response) ∧ response.decodedTxs = texts) ↔
      ((reports.drop (i * nTx)).take nTx).mapM DecodedTx.text = .ok texts := by
  obtain ⟨txs, hemitted, htxs⟩ := Node.run_reports hu (shows_new lv) hops hrun
  have hemitted : n.emitted = txs := hemitted
  rw [hreports, Exec.mapM_eq_ok_iff] at htxs
  have hgroup := Exec.mapM_eq_ok_iff.2 (List.forall₂_take nTx (List.forall₂_drop (i * nTx) htxs))
  have hreach : Exec.Reachable Node.step (fun _ _ => True) _ n :=
    .run .init (fun _ _ _ => trivial) hrun
  obtain ⟨row, row', -, -, hquery⟩ :=
    exists_l2BlockQuery asMilliseconds hnTx hreach hids htable hlater hi
  rw [hquery, hemitted, ← respond_eq_ok_iff asMilliseconds hgroup row row'.status texts]
  refine exists_congr fun response => and_congr_left fun _ => ?_
  rw [Exec.map_eq_ok_iff]
  constructor
  · rintro ⟨response', hresponse, heq⟩
    obtain rfl := Except.ok.inj heq
    exact hresponse
  · exact fun hresponse => ⟨response, hresponse, rfl⟩

end Reports

section Example

attribute [local instance] FluidexCommon.sample RustDecimal.sample DecimalExt.sample Formats.sample
  Texts.sample FrToU32.sample

/-- A key, reported as a deposit of nothing, and a deposit. -/
theorem report_of_run_streamOps :
    ∃ n table response tx tx', Exec.run Node.step (Node.new Levels.small 2 (some 7) 100) streamOps =
        .ok n ∧
      l2BlockQuery id table table 7 = .ok (.ok response) ∧ response.decodedTxs = [tx, tx'] ∧
      tx.depositTx.map (fun t => (t.amount, t.newBalance)) = some ("0/1", "0/1") ∧
      tx'.depositTx.map (fun t => (t.amount, t.newBalance)) = some ("1/20000", "1/20000") := by
  obtain ⟨⟨n, tx, tx'⟩, hn⟩ := Exec.exists_eq_ok (do
    let n ← Exec.run (Exec.guarded Node.step .unwrap fun n op => op.Reportable n.state)
      (Node.new Levels.small 2 (some 7) 100) streamOps
    let texts ← ((((Node.new Levels.small 2 (some 7) 100).reports streamOps).drop
      (0 * 2)).take 2).mapM DecodedTx.text
    let tx ← unwrap texts.head?
    let tx' ← unwrap texts.getLast?
    assert (n.blocks.length = 2 ∧ texts.length = 2) "blocks"
    assert (tx.depositTx.map (fun t => (t.amount, t.newBalance)) = some ("0/1", "0/1") ∧
      tx'.depositTx.map (fun t => (t.amount, t.newBalance)) = some ("1/20000", "1/20000"))
      "deposits"
    pure (n, tx, tx')) (by decide +kernel)
  simp only [Exec.bind_eq_ok_iff, Exec.unwrap_eq_ok_iff, Exec.assert_eq_ok_iff, Exec.pure_eq_ok_iff,
    Prod.mk.injEq] at hn
  obtain ⟨n, hn, texts, htexts, tx, htx, tx', htx', _, ⟨hlen, htwo⟩, _, htext, rfl, rfl, rfl⟩ := hn
  have := Texts.documented_sample
  have hrun := (Exec.Reachable.init.of_guarded hn).2
  have hsaves := saves_map n.blocks .verified (3 : ℤ)
  have hids : (some 7).getD 0 + n.blocks.length ≤ 2 ^ 32 := by
    rw [hlen]
    decide
  obtain ⟨response, hresponse, hdecoded⟩ := (report_of_run FrToU32.documented_sample id (by decide)
    (Exec.along_of_guarded hn) hrun rfl hids hsaves hsaves 0 (by rw [hlen]; decide) texts).2 htexts
  obtain ⟨a, b, rfl⟩ := List.length_eq_two.1 htwo
  obtain rfl := Option.some.inj htx
  obtain rfl := Option.some.inj htx'
  exact ⟨n, _, response, a, b, hrun, hresponse, hdecoded, htext⟩

end Example

end Rollup
