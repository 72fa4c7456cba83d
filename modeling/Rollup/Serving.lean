import Rollup.Lib.Bits
import Rollup.Messages
import Rollup.Paging
import Rollup.Querying
import Rollup.Serialize

/-!
# Serving the blocks

`Controller::l2_block_query`, from the table of the blocks to the response. The block is read back
from the JSON it is saved as, each of its transactions is decoded (`decodeTx`), and the balances
and the amounts are formatted as decimals of the precision of their token.

A response says what has been emitted (`l2BlockQuery_of_run`): the blocks of a run, saved in any
order, maybe several times and with whatever status, are served by their ids as groups of the raw
transactions, one after the other. There is no response if some transaction cannot be decoded or
formatted, and there are no other ids.
-/

namespace Rollup

/-- What is called to format numbers, in the crates outside the repository. -/
class Formats [RustDecimal] where
  /-- `FrExt::to_hex_string` -/
  toHexString : Fr → String
  /-- `Decimal::to_string` -/
  toString : Decimal → String

/-- Hexadecimal strings, and fractions, to run the model with. -/
@[reducible] def Formats.sample : @Formats RustDecimal.sample :=
  letI := RustDecimal.sample
  { toHexString := fun x => String.ofList (Nat.toDigits 16 x.val)
    toString := fun q : ℚ =>
      String.ofList (Nat.toDigits 10 q.num.toNat ++ '/' :: Nat.toDigits 10 q.den) }

/-! ## The table -/

/-- `BlockStatus`, of the database and of the responses. -/
inductive BlockStatus where
  | uncommited
  | commited
  | verified
  deriving DecidableEq

/-- A row of the table of the blocks, with the columns of the responses. -/
structure L2BlockRecord (τ : Type) extends L2BlockRow τ where
  status : BlockStatus
  l1TxHash : Option String
  detail : Json

/-- The codes of the requests that fail. -/
inductive Code where
  | notFound
  | invalidArgument
  deriving DecidableEq

/-- `tonic::Status` -/
structure Status where
  code : Code
  message : String
  deriving DecidableEq

section Serving

variable {τ : Type} [LinearOrder τ]

/-- `where block_id = $1 order by created_time desc limit 1` -/
def latestById (table : List (L2BlockRecord τ)) (blockId : ℤ) : Option (L2BlockRecord τ) :=
  ((table.filter fun b => b.blockId = blockId).insertionSort fun b c =>
    c.createdTime ≤ b.createdTime).head?

/-- The answer when no row has the id. -/
def Status.blockNotFound : Status := ⟨.notFound, "db l2_block record not found"⟩

/-- The row of the block, the newest one if there are several. -/
def getL2BlockById (table : List (L2BlockRecord τ)) (blockId : ℤ) :
    Except Status (L2BlockRecord τ) :=
  match latestById table blockId with
  | some l2Block => .ok l2Block
  | none => .error .blockNotFound

/-- The status of the row, the newest one if there are several. -/
def getStatusByBlockId (table : List (L2BlockRecord τ)) (blockId : ℤ) : Except Status BlockStatus :=
  match latestById table blockId with
  | some l2Block => .ok l2Block.status
  | none => .error .blockNotFound

/-! ## The response -/

namespace L2BlockQueryResponse

/-- A deposit in an answer, its amounts written as decimals. -/
structure DepositTx where
  accountId : ℕ
  tokenId : ℕ
  amount : String
  oldBalance : String
  newBalance : String

/-- A withdrawal in an answer, its amounts written as decimals. -/
structure WithdrawTx where
  accountId : ℕ
  tokenId : ℕ
  amount : String
  oldBalance : String
  newBalance : String

/-- A transfer in an answer, its amounts written as decimals. -/
structure TransferTx where
  fromId : ℕ
  toId : ℕ
  tokenId : ℕ
  amount : String
  fromOldBalance : String
  fromNewBalance : String
  toOldBalance : String
  toNewBalance : String

/-- A trade in an answer, its amounts written as decimals. -/
structure SpotTradeTx where
  order1AccountId : ℕ
  order2AccountId : ℕ
  tokenId1to2 : ℕ
  tokenId2to1 : ℕ
  amount1to2 : String
  amount2to1 : String
  account1TokenBuyNewBalance : String
  account1TokenBuyOldBalance : String
  account1TokenSellNewBalance : String
  account1TokenSellOldBalance : String
  account2TokenBuyNewBalance : String
  account2TokenBuyOldBalance : String
  account2TokenSellNewBalance : String
  account2TokenSellOldBalance : String

/-- A transaction in an answer. -/
structure DecodedTx where
  depositTx : Option DepositTx := none
  withdrawTx : Option WithdrawTx := none
  transferTx : Option TransferTx := none
  spotTradeTx : Option SpotTradeTx := none

end L2BlockQueryResponse

/-- The codes of the status and of the kinds of transactions are those of the enumerations. -/
structure L2BlockQueryResponse where
  txNum : ℕ
  realTxNum : ℕ
  createdTime : ℤ
  status : BlockStatus
  newRoot : String
  l1TxHash : String
  txs : List (List String)
  decodedTxs : List L2BlockQueryResponse.DecodedTx
  txsType : List ℤ

variable [RustDecimal] [DecimalExt] [Formats]

/-- `to_decimal(precision).to_string()` -/
def decimalText (x : Fr) (precision : ℕ) : Except Panic String :=
  Formats.toString <$> DecimalExt.toDecimal x precision

namespace L2BlockQuery

/-- Every amount is written with the precision of the token. -/
def DepositTx.text (tx : DepositTx) : Except Panic L2BlockQueryResponse.DepositTx := do
  let precision ← precTokenId tx.tokenId
  let amount ← decimalText tx.amount precision
  let oldBalance ← decimalText tx.oldBalance precision
  let newBalance ← decimalText tx.newBalance precision
  pure { tx with amount, oldBalance, newBalance }

/-- Every amount is written with the precision of the token. -/
def WithdrawTx.text (tx : WithdrawTx) : Except Panic L2BlockQueryResponse.WithdrawTx := do
  let precision ← precTokenId tx.tokenId
  let amount ← decimalText tx.amount precision
  let oldBalance ← decimalText tx.oldBalance precision
  let newBalance ← decimalText tx.newBalance precision
  pure { tx with amount, oldBalance, newBalance }

/-- Every amount is written with the precision of the token. -/
def TransferTx.text (tx : TransferTx) : Except Panic L2BlockQueryResponse.TransferTx := do
  let precision ← precTokenId tx.tokenId
  let fromNewBalance ← decimalText tx.fromNewBalance precision
  let fromOldBalance ← decimalText tx.fromOldBalance precision
  let toOldBalance ← decimalText tx.toOldBalance precision
  let toNewBalance ← decimalText tx.toNewBalance precision
  let amount ← decimalText tx.amount precision
  pure { tx with amount, fromNewBalance, fromOldBalance, toOldBalance, toNewBalance }

/-- An amount is written with the precision of the one of the two tokens it is of. -/
def SpotTradeTx.text (tx : SpotTradeTx) : Except Panic L2BlockQueryResponse.SpotTradeTx := do
  let precision1to2 ← precTokenId tx.tokenId1to2
  let precision2to1 ← precTokenId tx.tokenId2to1
  let amount1to2 ← decimalText tx.amount1to2 precision1to2
  let amount2to1 ← decimalText tx.amount2to1 precision2to1
  let account1TokenSellOldBalance ← decimalText tx.account1TokenSellOldBalance precision1to2
  let account1TokenSellNewBalance ← decimalText tx.account1TokenSellNewBalance precision1to2
  let account1TokenBuyOldBalance ← decimalText tx.account1TokenBuyOldBalance precision2to1
  let account1TokenBuyNewBalance ← decimalText tx.account1TokenBuyNewBalance precision2to1
  let account2TokenSellOldBalance ← decimalText tx.account2TokenSellOldBalance precision2to1
  let account2TokenSellNewBalance ← decimalText tx.account2TokenSellNewBalance precision2to1
  let account2TokenBuyOldBalance ← decimalText tx.account2TokenBuyOldBalance precision1to2
  let account2TokenBuyNewBalance ← decimalText tx.account2TokenBuyNewBalance precision1to2
  pure {
    tx with
    amount1to2, amount2to1, account1TokenSellOldBalance, account1TokenSellNewBalance,
    account1TokenBuyOldBalance, account1TokenBuyNewBalance, account2TokenSellOldBalance,
    account2TokenSellNewBalance, account2TokenBuyOldBalance, account2TokenBuyNewBalance }

/-- Formatting the part that is there, if any. -/
def DecodedTx.text (tx : DecodedTx) : Except Panic L2BlockQueryResponse.DecodedTx := do
  let depositTx ← tx.depositTx.mapM DepositTx.text
  let withdrawTx ← tx.withdrawTx.mapM WithdrawTx.text
  let transferTx ← tx.transferTx.mapM TransferTx.text
  let spotTradeTx ← tx.spotTradeTx.mapM SpotTradeTx.text
  pure { depositTx, withdrawTx, transferTx, spotTradeTx }

/-- The elements of a transaction that are read. -/
def indices : TxType → List TxDetailIdx
  | .deposit | .withdraw | .transfer =>
    [.accountId1, .accountId2, .tokenId1, .tokenId2, .amount, .balance1, .balance2]
  | .spotTrade =>
    [.accountId1, .accountId2, .newOrder1TokenSell, .newOrder2TokenSell, .amount1, .amount2,
      .balance1, .balance2, .balance3, .balance4]
  | _ => []

variable [FrToU32]

/-- The decoding of the elements of a transaction, which panics if one of them is missing. -/
def decodeVec (txType : TxType) (tx : List Fr) : Except Panic DecodedTx := do
  assert (∀ i ∈ indices txType, i.toNat < tx.length) "index out of bounds"
  decodeTx txType fun i => tx.getD i.toNat 0

end L2BlockQuery

open L2BlockQuery

variable [Texts] [FrToU32]

/-- `Controller::l2_block_query`: the status is read after the block. -/
def l2BlockQuery (asMilliseconds : τ → ℤ) (table later : List (L2BlockRecord τ)) (blockId : ℤ) :
    Except Panic (Except Status L2BlockQueryResponse) :=
  match getL2BlockById table blockId with
  | .error e => pure (.error e)
  | .ok l2Block =>
    match getStatusByBlockId later blockId with
    | .error e => pure (.error e)
    | .ok status => do
      let detail ← unwrap (L2BlockSerde.deserialize l2Block.detail)
      let decodedTxs ← (detail.encodedTxs.zip detail.txsType).mapM fun item => do
        let decodedTx ← decodeVec item.2 item.1
        decodedTx.text
      pure (.ok {
        txNum := detail.encodedTxs.length
        realTxNum := (detail.txsType.filter fun t => t ≠ .nop).length
        createdTime := asMilliseconds l2Block.createdTime
        status
        newRoot := l2Block.newRoot
        l1TxHash := l2Block.l1TxHash.getD ""
        txs := (detail.encodedTxs.zip detail.txsType).map fun item =>
          item.1.map Texts.toDecimalString
        decodedTxs
        txsType := (detail.encodedTxs.zip detail.txsType).map fun item => item.2.toI32 })

/-! ## What the table holds -/

/-- The row that `save_block_to_db` inserts; the status and the time are up to the database. -/
def saveBlockToDb (block : L2Block) (status : BlockStatus) (createdTime : τ) : L2BlockRecord τ where
  blockId := (block.blockId % 2 ^ 32 : ℕ)
  newRoot := Formats.toHexString block.detail.newRoot
  createdTime := createdTime
  status := status
  l1TxHash := none
  detail := (L2BlockSerde.from block.detail).serialize

/-- The row that has been inserted for a block, whatever has become of its status. -/
structure L2BlockRecord.Of (row : L2BlockRecord τ) (block : L2Block) : Prop where
  blockId : row.blockId = (block.blockId % 2 ^ 32 : ℕ)
  newRoot : row.newRoot = Formats.toHexString block.detail.newRoot
  detail : row.detail = (L2BlockSerde.from block.detail).serialize

/-- The rows are those of the blocks; a block may have several. -/
structure Saves (table : List (L2BlockRecord τ)) (blocks : List L2Block) : Prop where
  of_mem : ∀ row ∈ table, ∃ block ∈ blocks, row.Of block
  exists_row : ∀ block ∈ blocks, ∃ row ∈ table, row.Of block

/-- The response about a group of raw transactions. -/
def respond (asMilliseconds : τ → ℤ) (txs : List RawTx) (row : L2BlockRecord τ)
    (status : BlockStatus) : Except Panic L2BlockQueryResponse := do
  let decodedTxs ← txs.mapM fun tx => do
    let decodedTx ← decodeTx tx.txType tx.payload
    decodedTx.text
  pure {
    txNum := txs.length
    realTxNum := (txs.filter fun tx => tx.txType ≠ .nop).length
    createdTime := asMilliseconds row.createdTime
    status
    newRoot := ((txs.getLast?.map RawTx.rootAfter).map Formats.toHexString).getD ""
    l1TxHash := row.l1TxHash.getD ""
    txs := txs.map fun tx => tx.payload.toVec.map Texts.toDecimalString
    decodedTxs
    txsType := txs.map fun tx => tx.txType.toI32 }

omit [LinearOrder τ] [DecimalExt] [FrToU32] in
theorem saves_map (blocks : List L2Block) (status : BlockStatus) (createdTime : τ) :
    Saves (blocks.map fun block => saveBlockToDb block status createdTime) blocks where
  of_mem row hrow := by
    obtain ⟨block, hblock, rfl⟩ := List.mem_map.1 hrow
    exact ⟨block, hblock, rfl, rfl, rfl⟩
  exists_row block hblock := ⟨_, List.mem_map_of_mem hblock, rfl, rfl, rfl⟩

variable {table later : List (L2BlockRecord τ)} {row : L2BlockRecord τ} {block : L2Block}
  {blocks : List L2Block} {blockId : ℤ}

omit [RustDecimal] [DecimalExt] [Formats] [Texts] [FrToU32] in
theorem perm_latest (table : List (L2BlockRecord τ)) (blockId : ℤ) :
    ((table.filter fun b => b.blockId = blockId).insertionSort fun b c =>
      c.createdTime ≤ b.createdTime).Perm (table.filter fun b => b.blockId = blockId) :=
  List.perm_insertionSort _ _

omit [RustDecimal] [DecimalExt] [Formats] [Texts] [FrToU32] in
theorem latestById_eq_none_iff :
    latestById table blockId = none ↔ ∀ row ∈ table, row.blockId ≠ blockId := by
  rw [latestById, List.head?_eq_none_iff, ← List.perm_nil]
  have hperm := perm_latest table blockId
  constructor
  · intro hnil row hrow heq
    have hmem : row ∈ table.filter fun b => b.blockId = blockId :=
      List.mem_filter.2 ⟨hrow, decide_eq_true heq⟩
    exact absurd ((hperm.symm.trans hnil).subset hmem) List.not_mem_nil
  · intro hne
    refine hperm.trans ?_
    rw [List.filter_eq_nil_iff.2 fun row hrow => by simpa using hne row hrow]

omit [RustDecimal] [DecimalExt] [Formats] [Texts] [FrToU32] in
theorem mem_of_latestById (h : latestById table blockId = some row) :
    row ∈ table ∧ row.blockId = blockId := by
  have hmem := (perm_latest table blockId).subset (List.mem_of_head? h)
  obtain ⟨hrow, hid⟩ := List.mem_filter.1 hmem
  exact ⟨hrow, of_decide_eq_true hid⟩

/-! ## Reading a block back -/

omit [RustDecimal] [DecimalExt] [Formats] [Texts] in
/-- The elements are those of the payload. -/
theorem decodeVec_toVec (txType : TxType) (payload : Payload) :
    decodeVec txType payload.toVec = decodeTx txType payload := by
  have hlt (i : TxDetailIdx) : i.toNat < payload.toVec.length := by
    by_contra hle
    have hnone := List.getElem?_eq_none (not_lt.1 hle)
    rw [payload.toVec_getElem?] at hnone
    cases hnone
  have hget : (fun i : TxDetailIdx => payload.toVec.getD i.toNat 0) = payload := by
    funext i
    rw [List.getD_eq_getElem?_getD, payload.toVec_getElem?]
    rfl
  rw [decodeVec, assert, Exec.assert_of fun i _ => hlt i, Exec.ok_bind, hget]

variable [FluidexCommon]

omit [FluidexCommon] in
/-- A row is served as the transactions of its block. -/
theorem l2BlockQuery_of_holds [Texts.Documented] {asMilliseconds : τ → ℤ} {row' : L2BlockRecord τ}
    {txs : List RawTx} (hsized : (L2BlockSerde.from block.detail).Sized) (hholds : block.Holds txs)
    (hrow : row.Of block) (htable : latestById table blockId = some row)
    (hlater : latestById later blockId = some row') :
    l2BlockQuery asMilliseconds table later blockId =
      .ok <$> respond asMilliseconds txs row row'.status := by
  have htxs : (L2BlockSerde.from block.detail).encodedTxs = txs.map fun tx => tx.payload.toVec := by
    change block.detail.encodedTxs.map Payload.toVec = _
    rw [hholds.encodedTxs, List.map_map]
    rfl
  have htypes : (L2BlockSerde.from block.detail).txsType = txs.map RawTx.txType := hholds.txsType
  have hzip : (L2BlockSerde.from block.detail).encodedTxs.zip
      (L2BlockSerde.from block.detail).txsType =
        txs.map fun tx => (tx.payload.toVec, tx.txType) := by
    rw [htxs, htypes, List.zip_map']
  -- The detail in the row is the one of the block.
  have hread : L2BlockSerde.deserialize row.detail = some (L2BlockSerde.from block.detail) := by
    rw [hrow.detail, L2BlockSerde.deserialize_serialize hsized]
  simp only [l2BlockQuery, getL2BlockById, getStatusByBlockId, htable, hlater, hread, hzip,
    Exec.unwrap_some, Exec.ok_bind, List.mapM_map, Function.comp_def, decodeVec_toVec, respond,
    map_bind]
  refine bind_congr fun decodedTxs => ?_
  simp only [map_pure, htxs, htypes, List.length_map, List.filter_map, List.map_map, hrow.newRoot,
    hholds.newRoot]
  rfl

/-! ## The blocks of a run -/

omit [RustDecimal] [DecimalExt] [Formats] [Texts] [FrToU32] in
variable {lv : Levels} {n : Node lv} {nTx persistEveryNBlock : ℕ} {blockOffset : Option ℕ} in
/-- Whatever the operations, the blocks are cut from what has been emitted. -/
theorem Node.cuts {allowed : Node lv → Op → Prop} (hnTx : 0 < nTx)
    (hn : Exec.Reachable step allowed (new lv nTx blockOffset persistEveryNBlock) n) :
    n.manager.nTx = nTx ∧
      n.manager.blockGenerateNum = blockOffset.getD 0 + n.blocks.length ∧
      ManagerWrapper.Cuts nTx (blockOffset.getD 0) n.emitted n.blocks n.manager.bufferedTxs := by
  refine hn.invariant ⟨rfl, rfl, rfl, [], .nil, rfl⟩ fun m op m' _ hm _ hst => ?_
  obtain ⟨hsize, hnum, hcuts⟩ := hm
  cases step_stepped hst with
  | flush _ => exact ⟨hsize, hnum, hcuts.append _⟩
  | pop hpop =>
    have hpops := ManagerWrapper.popAllBlocks_spec (by rwa [hsize]) hpop
    have hcuts' := hpops.cuts
    rw [hsize, hnum] at hcuts'
    refine ⟨hpops.nTx.trans hsize, ?_, hcuts.trans hcuts'⟩
    rw [List.length_append, ← Nat.add_assoc, ← hnum]
    exact hpops.blockGenerateNum
  | @apply _ raw _ _ =>
    cases raw with
    | none => exact ⟨hsize, hnum, hcuts⟩
    | some raw => exact ⟨hsize, hnum, hcuts.append _⟩

omit [RustDecimal] [DecimalExt] [Formats] [Texts] [FrToU32] [FluidexCommon] in
/-- The block at a position, and its transactions. -/
theorem ManagerWrapper.Cuts.exists_block {nTx blockOffset i : ℕ} {txs rest : List RawTx}
    (h : Cuts nTx blockOffset txs blocks rest) (hi : i < blocks.length) :
    ∃ block, blocks[i]? = some block ∧ block.blockId = blockOffset + i ∧
      block.Holds ((txs.drop (i * nTx)).take nTx) := by
  obtain ⟨hids, groups, hgroups, rfl⟩ := h
  have hblock := List.getElem?_eq_getElem hi
  obtain ⟨group, hgroup, hholds, hlen⟩ := Bits.exists_getElem?_of_forall₂ hgroups hblock
  refine ⟨_, hblock, ?_, ?_⟩
  · have hid : (blocks.map L2Block.blockId)[i]? = some (blocks.get ⟨i, hi⟩).blockId := by
      rw [List.getElem?_map, hblock]
      rfl
    rw [hids, List.getElem?_range' hi, Nat.one_mul] at hid
    exact (Option.some.inj hid).symm
  · -- All the groups have the same length, so the one of the block is where its number says.
    have hall : ∀ p ∈ groups, p.length = nTx := by
      intro p hp
      obtain ⟨_, -, -, hlen⟩ := Bits.exists_mem_of_forall₂ hgroups hp
      exact hlen
    have hpos := (List.getElem?_eq_some_iff.1 hgroup).1
    have hlength : (i + 1) * nTx ≤ groups.flatten.length := by
      rw [Bits.length_flatten_of hall]
      exact Nat.mul_le_mul_right nTx hpos
    rw [Nat.add_mul, Nat.one_mul] at hlength
    rw [List.drop_append_of_le_length (by omega), List.take_append_of_le_length (by
      rw [List.length_drop]
      omega), Bits.take_drop_flatten hall hgroup]
    exact hholds

omit [RustDecimal] [DecimalExt] [Formats] [Texts] [FrToU32] [FluidexCommon] in
/-- No two blocks have the same id. -/
theorem ManagerWrapper.Cuts.eq_of_blockId {nTx blockOffset : ℕ} {txs rest : List RawTx}
    (h : Cuts nTx blockOffset txs blocks rest) {block' : L2Block} (hblock : block ∈ blocks)
    (hblock' : block' ∈ blocks) (heq : block.blockId = block'.blockId) : block = block' := by
  have hnodup : (blocks.map L2Block.blockId).Nodup := by
    rw [h.1]
    exact List.nodup_range'
  exact List.inj_on_of_nodup_map hnodup hblock hblock' heq

omit [RustDecimal] [DecimalExt] [Formats] [Texts] [FrToU32] [FluidexCommon] in
theorem ManagerWrapper.Cuts.blockId_lt {nTx blockOffset : ℕ} {txs rest : List RawTx}
    (h : Cuts nTx blockOffset txs blocks rest) (hblock : block ∈ blocks) :
    block.blockId < blockOffset + blocks.length := by
  have hmem := List.mem_map_of_mem (f := L2Block.blockId) hblock
  rw [h.1, List.mem_range'_1] at hmem
  exact hmem.2

omit [DecimalExt] [FrToU32] [FluidexCommon] in
/-- The row that is found is that of the block with the id. -/
theorem Saves.latestById (h : Saves table blocks) {nTx blockOffset : ℕ} {txs rest : List RawTx}
    (hcuts : ManagerWrapper.Cuts nTx blockOffset txs blocks rest)
    (hids : blockOffset + blocks.length ≤ 2 ^ 32) (hblock : block ∈ blocks) :
    ∃ row, Rollup.latestById table block.blockId = some row ∧ row.Of block := by
  have hmod {b : L2Block} (hb : b ∈ blocks) : b.blockId % 2 ^ 32 = b.blockId :=
    Nat.mod_eq_of_lt ((hcuts.blockId_lt hb).trans_le hids)
  cases hrow : Rollup.latestById table block.blockId with
  | none =>
    obtain ⟨row, hmem, hof⟩ := h.exists_row block hblock
    have hid := hof.blockId
    rw [hmod hblock] at hid
    exact absurd hid (latestById_eq_none_iff.1 hrow row hmem)
  | some row =>
    obtain ⟨hmem, hid⟩ := mem_of_latestById hrow
    obtain ⟨block', hblock', hof⟩ := h.of_mem row hmem
    have hid' := hof.blockId
    rw [hid, hmod hblock', Nat.cast_inj] at hid'
    obtain rfl := hcuts.eq_of_blockId hblock hblock' hid'
    exact ⟨row, rfl, hof⟩

variable {lv : Levels} {n : Node lv} {nTx persistEveryNBlock : ℕ} {blockOffset : Option ℕ}

/-- The id of a block of a run is answered by the transactions of its group. -/
theorem exists_l2BlockQuery [Texts.Documented] {allowed : Node lv → Op → Prop}
    (asMilliseconds : τ → ℤ) (hnTx : 0 < nTx)
    (hn : Exec.Reachable Node.step allowed (Node.new lv nTx blockOffset persistEveryNBlock) n)
    (hids : blockOffset.getD 0 + n.blocks.length ≤ 2 ^ 32) (htable : Saves table n.blocks)
    (hlater : Saves later n.blocks) {i : ℕ} (hi : i < n.blocks.length) :
    ∃ row row', latestById table ↑(blockOffset.getD 0 + i) = some row ∧
      latestById later ↑(blockOffset.getD 0 + i) = some row' ∧
      l2BlockQuery asMilliseconds table later ↑(blockOffset.getD 0 + i) =
        .ok <$> respond asMilliseconds ((n.emitted.drop (i * nTx)).take nTx) row row'.status := by
  obtain ⟨-, -, hcuts⟩ := Node.cuts hnTx hn
  obtain ⟨block, hblock, hblockId, hholds⟩ := hcuts.exists_block hi
  have hmem := List.mem_of_getElem? hblock
  obtain ⟨row, hrow, hof⟩ := htable.latestById hcuts hids hmem
  obtain ⟨row', hrow', -⟩ := hlater.latestById hcuts hids hmem
  rw [hblockId] at hrow hrow'
  exact ⟨row, row', hrow, hrow',
    l2BlockQuery_of_holds (Node.forged hn block hmem).sized hholds hof hrow hrow'⟩

/-- **A query says what has been emitted.** The id of a block of a run is answered by the
    transactions of its group, and any other id by no block. -/
theorem l2BlockQuery_of_run [Texts.Documented] (asMilliseconds : τ → ℤ) (hnTx : 0 < nTx)
    {ops : List Op}
    (hrun : Exec.run Node.step (Node.new lv nTx blockOffset persistEveryNBlock) ops = .ok n)
    (hids : blockOffset.getD 0 + n.blocks.length ≤ 2 ^ 32) (htable : Saves table n.blocks)
    (hlater : Saves later n.blocks) :
    (∀ i < n.blocks.length, ∃ row row', latestById table ↑(blockOffset.getD 0 + i) = some row ∧
      latestById later ↑(blockOffset.getD 0 + i) = some row' ∧
      l2BlockQuery asMilliseconds table later ↑(blockOffset.getD 0 + i) =
        .ok <$> respond asMilliseconds ((n.emitted.drop (i * nTx)).take nTx) row row'.status) ∧
      ∀ id : ℤ, (∀ i < n.blocks.length, id ≠ ↑(blockOffset.getD 0 + i)) →
        l2BlockQuery asMilliseconds table later id = .ok (.error .blockNotFound) := by
  have hreach : Exec.Reachable Node.step (fun _ _ => True) _ n :=
    .run .init (fun _ _ _ => trivial) hrun
  refine ⟨fun i => exists_l2BlockQuery asMilliseconds hnTx hreach hids htable hlater,
    fun id hid => ?_⟩
  obtain ⟨-, -, hcuts⟩ := Node.cuts hnTx hreach
  -- A row has the id of a block that was popped.
  have hnone : latestById table id = none := by
    refine latestById_eq_none_iff.2 fun row hrow heq => ?_
    obtain ⟨block, hblock, hof⟩ := htable.of_mem row hrow
    have hlt := hcuts.blockId_lt hblock
    have hmem := List.mem_map_of_mem (f := L2Block.blockId) hblock
    rw [hcuts.1, List.mem_range'_1] at hmem
    refine hid (block.blockId - blockOffset.getD 0) (by omega) ?_
    rw [← heq, hof.blockId, Nat.mod_eq_of_lt (hlt.trans_le hids), Nat.add_sub_cancel' hmem.1]
  rw [l2BlockQuery, getL2BlockById, hnone]
  rfl

end Serving

section Example

open L2BlockQuery

attribute [local instance] FluidexCommon.sample RustDecimal.sample DecimalExt.sample Formats.sample
  Texts.sample FrToU32.sample

/-- The second block has a withdrawal, and a transaction that does nothing. -/
theorem l2BlockQuery_of_run_streamOps :
    ∃ n table response,
      Exec.run Node.step (Node.new Levels.small 2 (some 7) 100) streamOps = .ok n ∧
      l2BlockQuery id table table 8 = .ok (.ok response) ∧
      (response.txNum, response.realTxNum, response.txsType) = (2, 1, [3, 0]) ∧
      l2BlockQuery id table table 9 = .ok (.error .blockNotFound) := by
  obtain ⟨⟨n, decodedTxs⟩, hn⟩ := Exec.exists_eq_ok (do
    let n ← Exec.run Node.step (Node.new Levels.small 2 (some 7) 100) streamOps
    let txs := (n.emitted.drop 2).take 2
    let decodedTxs ← txs.mapM fun tx => do
      let decodedTx ← decodeTx tx.txType tx.payload
      decodedTx.text
    assert (n.blocks.length = 2 ∧ txs.map RawTx.txType = [.withdraw, .nop]) "blocks"
    pure (n, decodedTxs)) (by decide +kernel)
  simp only [Exec.bind_eq_ok_iff, Exec.assert_eq_ok_iff, Exec.pure_eq_ok_iff, Prod.mk.injEq] at hn
  obtain ⟨n, hn, _, hdecoded, _, ⟨hlen, htypes⟩, rfl, rfl⟩ := hn
  have := Texts.documented_sample
  have hsaves := saves_map n.blocks .verified (3 : ℤ)
  have hids : (some 7).getD 0 + n.blocks.length ≤ 2 ^ 32 := by
    rw [hlen]
    decide
  obtain ⟨hblocks, hothers⟩ :=
    l2BlockQuery_of_run id (by decide) hn hids hsaves hsaves
  obtain ⟨row, row', -, -, hquery⟩ := hblocks 1 (by rw [hlen]; decide)
  obtain ⟨tx, _, htxs, hwithdraw, htypes⟩ := List.map_eq_cons_iff.1 htypes
  obtain ⟨tx', _, rfl, hnop, htypes⟩ := List.map_eq_cons_iff.1 htypes
  obtain rfl := List.map_eq_nil_iff.1 htypes
  change l2BlockQuery id _ _ 8 =
    .ok <$> respond id ((n.emitted.drop 2).take 2) row row'.status at hquery
  rw [htxs] at hdecoded hquery
  rw [respond, hdecoded, Exec.ok_bind] at hquery
  refine ⟨n, _, _, hn, hquery, ?_, hothers 9 fun i hi => ?_⟩
  · simp only [List.filter_cons, List.map_cons, hwithdraw, hnop]
    rfl
  · change (9 : ℤ) ≠ ↑(7 + i)
    omega

end Example

end Rollup
