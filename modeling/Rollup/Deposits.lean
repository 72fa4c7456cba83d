import Rollup.Availability
import Rollup.Serialize

/-!
# Where the deposits are

What comes from the first layer, i.e., the deposits and the keys, has to be found in the public
data by a contract. The records alone do not say it, as a deposit is published like a transfer to
oneself, and a deposit of nothing like a transaction that does nothing: the positions of the
deposits of a block are saved beside its public data (`L2PubDataAux`).

Together they say what has been deposited. Two managers whose blocks are saved with the same
public data and the same positions have accepted the same keys and the same deposits, in the same
order, whatever else their transactions are (`Node.deposits_eq_of_contractData`).
-/

namespace Rollup

open Books (Booking)

/-! ## Positions -/

/-- What is given to the contract beside the public data: where the deposits are. -/
structure L2PubDataAux where
  /-- `Vec<u32>` -/
  depositTxsPos : List ℕ

/-- `From<&L2Block>` -/
def L2PubDataAux.from (origin : L2Block) : L2PubDataAux where
  depositTxsPos :=
    ((origin.detail.txsType.zip (List.range origin.detail.txsType.length)).filter fun item =>
      item.1 = .deposit).map fun item => item.2 % 2 ^ 32

namespace L2PubDataAux

/-- The positions, under the name `deposit`. -/
def serialize (aux : L2PubDataAux) : Json :=
  .obj [("deposit", .arr (aux.depositTxsPos.map fun pos : ℕ => .int pos))]

theorem serialize_injective : Function.Injective serialize := by
  rintro ⟨l⟩ ⟨l'⟩ h
  simp only [serialize, Json.obj.injEq, List.cons.injEq, Prod.mk.injEq, Json.arr.injEq, true_and,
    and_true] at h
  have hinj : Function.Injective fun pos : ℕ => Json.int pos := fun i j hij =>
    Int.ofNat_inj.1 (Json.int.inj hij)
  rw [List.map_injective_iff.2 hinj h]

/-- The positions are those of the deposits. -/
theorem mem_depositTxsPos_iff {block : L2Block} (hlen : block.detail.txsType.length ≤ 2 ^ 32)
    {i : ℕ} :
    i ∈ (L2PubDataAux.from block).depositTxsPos ↔ block.detail.txsType[i]? = some .deposit := by
  have hmem {t : TxType} {j : ℕ} :
      (t, j) ∈ block.detail.txsType.zip (List.range block.detail.txsType.length) ↔
        block.detail.txsType[j]? = some t := by
    rw [List.range_eq_range', ← List.zipIdx_eq_zip_range', List.mk_mem_zipIdx_iff_getElem?]
  constructor
  · intro hi
    obtain ⟨⟨t, j⟩, hj, hij⟩ := List.mem_map.1 hi
    obtain ⟨hj, ht⟩ := List.mem_filter.1 hj
    have hlt := (List.getElem?_eq_some_iff.1 (hmem.1 hj)).1
    change j % 2 ^ 32 = i at hij
    rw [Nat.mod_eq_of_lt (hlt.trans_le hlen)] at hij
    obtain rfl := hij
    rw [hmem.1 hj]
    exact congrArg some (of_decide_eq_true ht)
  · intro hi
    have hlt := (List.getElem?_eq_some_iff.1 hi).1
    refine List.mem_map.2 ⟨(.deposit, i), List.mem_filter.2 ⟨hmem.2 hi, decide_eq_true rfl⟩, ?_⟩
    exact Nat.mod_eq_of_lt (hlt.trans_le hlen)

end L2PubDataAux

/-- What is saved of a block for the contract: `raw_public_data` and `public_data_aux`. -/
def L2Block.contractData (block : L2Block) : List UInt8 × Json :=
  (block.publicData, (L2PubDataAux.from block).serialize)

/-! ## Deposits -/

section Deposits

variable [FluidexCommon] {lv : Levels} {s s' : GlobalState lv} {L : Ledger lv} {n n' : Node lv}
  {tx tx' : RawTx}

/-- What an operation asks for the first layer. A key that comes with a deposit is published
    without it. -/
def Op.deposited : Op → Option Booking
  | .keyUpdate tx _ => some (.register tx.accountId (tx.l2key.sign, tx.l2key.ay))
  | .deposit tx _ =>
    match tx.l2key with
    | some l2key => some (.register tx.accountId (l2key.sign, l2key.ay))
    | none => some (.deposit tx.accountId tx.tokenId tx.amount.toNat)
  | _ => none

/-- What a run accepts from the first layer. -/
def Node.deposits : Node lv → List Op → List Booking
  | _, [] => []
  | n, op :: ops =>
    match n.step op with
    | .ok n' =>
      (if n.emitted.length < n'.emitted.length then op.deposited.toList else []) ++
        n'.deposits ops
    | .error _ => []

/-- The tokens of the deposits are `u32`s. -/
def Op.DepositTyped : Op → Prop
  | .deposit tx _ => tx.tokenId < 2 ^ 32
  | _ => True

instance : (op : Op) → Decidable op.DepositTyped
  | .deposit tx _ => inferInstanceAs (Decidable (tx.tokenId < 2 ^ 32))
  | .createNewAccount _ | .setAccountL2Addr _ _ _ | .setAccountNonce _ _ | .setAccountOrder _ _ _
  | .setTokenBalance _ _ _ | .keyUpdate _ _ | .transfer _ _ _ | .withdraw _ _
  | .fullSpotTrade _ _ _ | .cancelOrder _ _ | .nop | .flushWithNop | .popAllBlocks =>
    .isTrue trivial

/-- What is read of a record, if it is that of a deposit. -/
def Published.deposited : Published → Option Booking
  | .keyUpdate a sign ay => some (.register a.val (sign, ay))
  | .common a _ t amount => some (.deposit a.val t.val amount.val)
  | _ => none

/-- The entry of a deposit in the books, read from its public data. -/
def RawTx.deposited (tx : RawTx) : Option Booking :=
  if tx.txType = .deposit then tx.published.deposited else none

/-- The record of a transaction says what it asks for the first layer. -/
theorem Op.Emits.deposited_eq {op : Op} (h : op.Emits s L tx) (hop : op.DepositTyped) :
    tx.deposited = op.deposited := by
  have haccount {a : ℕ} (ha : a < 2 ^ lv.accountLevels) : ((a : ℕ) : Fr).val = a :=
    Fr.val_natCast ha (lv.account_lt.trans (by decide))
  have hone : (1 : Fr) ≠ 0 := by decide
  -- The other transactions are not of that type.
  have hother {txType : TxType} {offset : Option ℤ} (hof : tx.IsOf txType offset)
      (hne : txType ≠ .deposit) : tx.deposited = none := by
    rw [RawTx.deposited, hof.1, if_neg hne]
  cases h with
  | @keyUpdate offset ktx _ hof ha hpayload =>
    have hnew : tx.payload .dstIsNew ≠ 0 := by
      rw [hpayload]
      exact hone
    rw [RawTx.deposited, if_pos hof.1, RawTx.published_of_new hof.1 hnew, Published.deposited,
      hpayload]
    change some (Booking.register (((ktx.accountId : ℕ) : Fr).val) _) = _
    rw [haccount ha]
    rfl
  | @deposit offset dtx _ hof ha hpayload =>
    rw [RawTx.deposited, if_pos hof.1, Op.deposited]
    -- With a key, the public data say nothing of the amount.
    cases hkey : dtx.l2key with
    | none =>
      have hold : tx.payload .dstIsNew = 0 := by
        rw [hpayload, depositPayload, hkey]
        rfl
      have htoken : ((dtx.tokenId : ℕ) : Fr).val = dtx.tokenId :=
        Fr.val_natCast hop (by decide)
      rw [RawTx.published_of_old hof.1 hold, Published.deposited, hpayload]
      change some (Booking.deposit ((dtx.accountId : ℕ) : Fr).val ((dtx.tokenId : ℕ) : Fr).val
        dtx.amount.toFr.val) = _
      rw [haccount ha, htoken, U128.toFr_val]
    | some l2key =>
      have hnew : tx.payload .dstIsNew ≠ 0 := by
        rw [hpayload, depositPayload, hkey]
        exact hone
      rw [RawTx.published_of_new hof.1 hnew, Published.deposited, hpayload, depositPayload,
        depositPayload, depositPayload, hkey, haccount ha]
      rfl
  | transfer hof _ _ _ | withdraw hof _ _ => exact hother hof TxType.noConfusion
  | fullSpotTrade hof _ _ _ _ => exact hother hof TxType.noConfusion
  | nop hnop => rcases hnop with rfl | rfl <;> rfl

namespace Node

/-- What a step accepts from the first layer is what it emits for it. -/
theorem step_deposits (h : Shows n.state L) {op : Op} (hop : op.DepositTyped)
    (hst : n.step op = .ok n') : ∃ txs, n'.emitted = n.emitted ++ txs ∧
      txs.filterMap RawTx.deposited =
        if n.emitted.length < n'.emitted.length then op.deposited.toList else [] := by
  cases step_stepped hst with
  | flush _ =>
    refine ⟨_, rfl, ?_⟩
    have hnone : ∀ tx ∈ List.replicate n.manager.missingTxs n.state.nopTx, tx.deposited = none :=
      fun tx htx => List.eq_of_mem_replicate htx ▸ rfl
    rw [List.filterMap_eq_nil_iff.2 hnone]
    exact (ite_self _).symm
  | pop _ => exact ⟨[], (List.append_nil _).symm, (if_neg (lt_irrefl _)).symm⟩
  | @apply _ raw _ hr =>
    cases raw with
    | none => exact ⟨[], (List.append_nil _).symm, (if_neg (lt_irrefl _)).symm⟩
    | some raw =>
      refine ⟨[raw], rfl, ?_⟩
      have hlt : n.emitted.length < (n.emitted ++ [raw]).length := by
        rw [List.length_append]
        exact Nat.lt_succ_self _
      refine Eq.trans ?_ (if_pos hlt).symm
      rw [List.filterMap_cons, (apply_emits h hr).deposited_eq hop]
      cases op.deposited <;> rfl

/-- What a run accepts from the first layer is what it emits for it. -/
theorem run_deposits (h : Shows n.state L) {ops : List Op} (hops : ∀ op ∈ ops, op.DepositTyped)
    (hrun : Exec.run step n ops = .ok n') : ∃ txs, n'.emitted = n.emitted ++ txs ∧
      txs.filterMap RawTx.deposited = n.deposits ops := by
  induction ops generalizing n L with
  | nil =>
    obtain rfl := Exec.run_nil.1 hrun
    exact ⟨[], (List.append_nil _).symm, rfl⟩
  | cons op ops ih =>
    obtain ⟨hop, hops⟩ := List.forall_mem_cons.1 hops
    obtain ⟨n₁, hst, hrun⟩ := Exec.run_cons.1 hrun
    obtain ⟨L₁, h₁⟩ := exists_shows_step ⟨L, h⟩ hst
    obtain ⟨txs, hemitted, htxs⟩ := step_deposits h hop hst
    obtain ⟨txs', hemitted', htxs'⟩ := ih h₁ hops hrun
    refine ⟨txs ++ txs', by rw [hemitted', hemitted, List.append_assoc], ?_⟩
    rw [List.filterMap_append, htxs, htxs', deposits, hst]

end Node

/-! ## Blocks -/

variable [FluidexCommon.Documented]

/-- What is saved of a block for the contract says what its transactions ask for. -/
theorem L2Block.Publishes.deposited_eq {nTx nTx' : ℕ} {block block' : L2Block}
    {txs txs' : List RawTx} (h : block.Publishes (Node.encoder lv) nTx txs)
    (h' : block'.Publishes (Node.encoder lv) nTx' txs') (hnTx : nTx ≤ 2 ^ 32)
    (hnTx' : nTx' ≤ 2 ^ 32) (hdata : block.contractData = block'.contractData)
    (htxs : ∀ tx ∈ txs, tx.Emitted) (htxs' : ∀ tx ∈ txs', tx.Emitted) :
    txs.map RawTx.deposited = txs'.map RawTx.deposited := by
  obtain ⟨hbytes, haux⟩ := Prod.mk.inj hdata
  have hpublished := h.published_eq h' hbytes htxs htxs'
  have hpos := congrArg L2PubDataAux.depositTxsPos (L2PubDataAux.serialize_injective haux)
  -- the transaction at a position is a deposit in both blocks, or in none
  have htype {block : L2Block} {txs : List RawTx} {k : ℕ}
      (h : block.Publishes (Node.encoder lv) k txs) (hk : k ≤ 2 ^ 32) {i : ℕ}
      (hi : i < txs.length) :
      i ∈ (L2PubDataAux.from block).depositTxsPos ↔ (txs.get ⟨i, hi⟩).txType = .deposit := by
    have hlen : block.detail.txsType.length ≤ 2 ^ 32 := by
      rw [h.holds.txsType, List.length_map, h.length_eq]
      exact hk
    rw [L2PubDataAux.mem_depositTxsPos_iff hlen, h.holds.txsType, List.getElem?_map,
      List.getElem?_eq_getElem hi, Option.map_some, Option.some_inj]
    rfl
  have hlength : txs.length = txs'.length := by
    have := congrArg List.length hpublished
    rwa [List.length_map, List.length_map] at this
  refine List.ext_getElem (by rw [List.length_map, List.length_map, hlength]) fun i hi hi' => ?_
  rw [List.getElem_map, List.getElem_map]
  rw [List.length_map] at hi hi'
  have hsame := List.getElem_of_eq hpublished (by rwa [List.length_map])
  rw [List.getElem_map, List.getElem_map] at hsame
  rw [RawTx.deposited, RawTx.deposited, hsame]
  refine if_congr ?_ rfl rfl
  exact (htype h hnTx hi).symm.trans (hpos ▸ htype h' hnTx' hi')

namespace Node

variable {nTx nTx' persistEveryNBlock persistEveryNBlock' : ℕ} {blockOffset blockOffset' : Option ℕ}
  {ops ops' : List Op}

/-- **What is saved for the contract says what has been deposited.** Two managers, whose
    transactions are all in blocks, have accepted the same keys and the same deposits if their
    blocks have the same public data and the same positions of deposits. -/
theorem deposits_eq_of_contractData (hnTx : nTx ≤ 2 ^ 32) (hnTx' : nTx' ≤ 2 ^ 32)
    (hops : ∀ op ∈ ops, op.Typed ∧ op.DepositTyped)
    (hops' : ∀ op ∈ ops', op.Typed ∧ op.DepositTyped)
    (hrun : Exec.run step (new lv nTx blockOffset persistEveryNBlock) ops = .ok n)
    (hrun' : Exec.run step (new lv nTx' blockOffset' persistEveryNBlock') ops' = .ok n')
    (hall : n.manager.bufferedTxs = []) (hall' : n'.manager.bufferedTxs = [])
    (hdata : n.blocks.map L2Block.contractData = n'.blocks.map L2Block.contractData) :
    (new lv nTx blockOffset persistEveryNBlock).deposits ops =
      (new lv nTx' blockOffset' persistEveryNBlock').deposits ops' := by
  have htyped (m : Node lv) (op : Op) (hop : op.Typed) : op.Typed := hop
  obtain ⟨groups, hgroups, hflat, hemitted⟩ := exists_groups htyped
    (.run .init (fun op hop _ => (hops op hop).1) hrun) hall
  obtain ⟨groups', hgroups', hflat', hemitted'⟩ := exists_groups htyped
    (.run .init (fun op hop _ => (hops' op hop).1) hrun') hall'
  obtain ⟨txs, htxs, hdeposits⟩ := run_deposits (shows_new lv) (fun op hop => (hops op hop).2) hrun
  obtain ⟨txs', htxs', hdeposits'⟩ :=
    run_deposits (shows_new lv) (fun op hop => (hops' op hop).2) hrun'
  obtain rfl : n.emitted = txs := htxs
  obtain rfl : n'.emitted = txs' := htxs'
  have hdeposited : n.emitted.map RawTx.deposited = n'.emitted.map RawTx.deposited := by
    rw [← hflat] at hemitted ⊢
    rw [← hflat'] at hemitted' ⊢
    refine Bits.map_flatten_eq_of_forall₂ (f := L2Block.contractData) (fun _ _ _ _ h h' => ?_)
      hgroups hgroups' hdata (fun tx htx => (hemitted tx htx).2) fun tx htx => (hemitted' tx htx).2
    exact h.deposited_eq h' hnTx hnTx'
  have hid (txs : List RawTx) :
      txs.filterMap RawTx.deposited = (txs.map RawTx.deposited).filterMap id := by
    rw [List.filterMap_map]
    rfl
  rw [← hdeposits, ← hdeposits', hid, hid, hdeposited]

end Node

end Deposits

attribute [local instance] FluidexCommon.sample in
/-- A key that comes with an empty deposit is published like an update of a key. -/
theorem Node.deposits_eq_of_contractData_publicOps :
    (Node.new Levels.small 2 none 9).deposits publicOps =
        (Node.new Levels.small 2 (some 7) 100).deposits publicOps' ∧
      (Node.new Levels.small 2 (some 7) 100).deposits publicOps' =
        [.register 0 (1, 5), .deposit 0 1 90, .register 1 (0, 6)] := by
  have hdeposits : (Node.new Levels.small 2 (some 7) 100).deposits publicOps' =
      [.register 0 (1, 5), .deposit 0 1 90, .register 1 (0, 6)] := by decide +kernel
  let data (n : Node Levels.small) := n.blocks.map fun block =>
    (block.publicData, (L2PubDataAux.from block).depositTxsPos)
  obtain ⟨⟨n, n'⟩, hn⟩ := Exec.exists_eq_ok (do
    let n ← Exec.run Node.step (Node.new Levels.small 2 none 9) publicOps
    let n' ← Exec.run Node.step (Node.new Levels.small 2 (some 7) 100) publicOps'
    assert (n.manager.bufferedTxs.isEmpty ∧ n'.manager.bufferedTxs.isEmpty ∧ data n = data n')
      "data"
    pure (n, n')) (by decide +kernel)
  simp only [Exec.bind_eq_ok_iff, Exec.assert_eq_ok_iff, Exec.pure_eq_ok_iff, Prod.mk.injEq] at hn
  obtain ⟨n, hn, n', hn', _, ⟨hall, hall', hdata⟩, rfl, rfl⟩ := hn
  have hcontract (n : Node Levels.small) : n.blocks.map L2Block.contractData =
      (data n).map fun block => (block.1, (L2PubDataAux.mk block.2).serialize) := by
    rw [List.map_map]
    rfl
  have := FluidexCommon.sample_documented
  refine ⟨Node.deposits_eq_of_contractData (by decide) (by decide) (by decide) (by decide) hn hn'
    (List.isEmpty_iff.1 hall) (List.isEmpty_iff.1 hall') ?_, hdeposits⟩
  rw [hcontract, hcontract, hdata]

end Rollup
