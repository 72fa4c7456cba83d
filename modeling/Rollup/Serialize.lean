import Mathlib.Data.Nat.Digits.Defs
import Mathlib.Data.Nat.Digits.Lemmas
import Rollup.Lib.Json
import Rollup.Blocks

/-!
# The blocks as JSON

`types/l2/serialize.rs`: what is saved of a block, and what the provers are given of it. The
elements of the field are decimal strings, the leaves of a path arrays of one element, and the
hash of the public data, which the field has no room for, is two numbers of 128 bits.

* What is read has as many paths for each transaction as the circuit, and this is all that it
  takes to be read back as it is written (`L2BlockSerde.lawful`).
* Nothing of a block is lost: two blocks that are saved alike are the same (`detail_eq_of_json`).
-/

namespace Rollup

/-! ## Decimal strings -/

/-- What is called to write and read decimal strings, in the crates outside the repository. -/
class Texts where
  /-- `FrExt::to_decimal_string` -/
  toDecimalString : Fr → String
  /-- `BigInt::from_str` -/
  bigIntFromStr : String → Option ℤ
  /-- `FrExt::from_bigint`, `none` where it panics -/
  frFromBigint : ℤ → Option Fr

/-- A number that is written in decimal is read back. -/
class Texts.Documented [Texts] : Prop where
  bigIntFromStr_eq (x : Fr) : Texts.bigIntFromStr (Texts.toDecimalString x) = some (x.val : ℤ)
  frFromBigint_eq (x : Fr) : Texts.frFromBigint x.val = some x

/-- Strings of digits, to run the model with. -/
@[reducible] def Texts.sample : Texts where
  toDecimalString x := String.ofList (Nat.toDigits 10 x.val)
  bigIntFromStr s :=
    if s.toList.all Char.isDigit then some (Nat.ofDigitChars 10 s.toList 0 : ℕ) else none
  frFromBigint z := if 0 ≤ z then some (z.toNat : Fr) else none

/-- The digits of a number are read back. -/
theorem Texts.documented_sample : @Texts.Documented Texts.sample := by
  refine @Documented.mk sample (fun x => ?_) fun x => ?_
  · have hdigits : (Nat.toDigits 10 x.val).all Char.isDigit :=
      List.all_eq_true.2 fun _ hc => Nat.isDigit_of_mem_toDigits (by decide) (by decide) hc
    show (if (String.ofList (Nat.toDigits 10 x.val)).toList.all Char.isDigit then
      some ((Nat.ofDigitChars 10 (String.ofList (Nat.toDigits 10 x.val)).toList 0 : ℕ) : ℤ)
        else none) = some (x.val : ℤ)
    rw [String.toList_ofList, if_pos hdigits, Nat.ofDigitChars_ten_toDigits]
  · show (if (0 : ℤ) ≤ (x.val : ℤ) then some ((x.val : ℤ).toNat : Fr) else none) = some x
    rw [if_pos (Int.natCast_nonneg _), Int.toNat_natCast, ZMod.natCast_zmod_val]

open Json (Format)

section Serialize

variable [Texts]

namespace FrStr

/-- A field element is a decimal string. -/
def serialize (x : Fr) : Json := .str (Texts.toDecimalString x)

/-- A string that is not a number of the field is refused. -/
def deserialize : Json → Option Fr
  | .str v => do
    let fr ← Texts.bigIntFromStr v
    Texts.frFromBigint fr
  | _ => none

/-- A field element on its own. -/
def format : Format Fr := ⟨serialize, deserialize⟩

/-- Field elements are read back, and nothing else is read. -/
theorem lawful [Texts.Documented] : format.Lawful fun _ => True where
  read_write x _ := by
    refine (congrArg (Option.bind · _) (Texts.Documented.bigIntFromStr_eq x)).trans ?_
    exact Texts.Documented.frFromBigint_eq x
  of_read _ _ _ := trivial

end FrStr

/-! A leaf of a path is an array of one element. -/

namespace MerkleLeafStr

/-- An element of a path is an array of one string. -/
def serialize (x : Fr) : Json := .arr [FrStr.serialize x]

/-- An array of another length is refused. -/
def deserialize : Json → Option Fr
  | .arr [frStr] => FrStr.deserialize frStr
  | _ => none

/-- An element of a path. -/
def format : Format Fr := ⟨serialize, deserialize⟩

/-- The elements of a path are read back. -/
theorem lawful [Texts.Documented] : format.Lawful fun _ => True where
  read_write x _ := FrStr.lawful.read_write x trivial
  of_read _ _ _ := trivial

end MerkleLeafStr

namespace TxType

/-- `tx_type as i32` -/
def toI32 : TxType → ℤ
  | .nop => 0
  | .deposit => 1
  | .transfer => 2
  | .withdraw => 3
  | .placeOrder => 4
  | .spotTrade => 5

/-- A type is its number. -/
def serialize (t : TxType) : Json := .int t.toI32

/-- `visit_i64` and `visit_u64` -/
def deserialize : Json → Option TxType
  | .int 0 => some .nop
  | .int 1 => some .deposit
  | .int 2 => some .transfer
  | .int 3 => some .withdraw
  | .int 4 => some .placeOrder
  | .int 5 => some .spotTrade
  | _ => none

/-- The type of a transaction. -/
def format : Format TxType := ⟨serialize, deserialize⟩

omit [Texts] in
/-- The types are read back from their numbers. -/
theorem lawful : format.Lawful fun _ => True where
  read_write t _ := by cases t <;> rfl
  of_read _ _ _ := trivial

end TxType

/-! ## Blocks -/

/-- The inputs of the circuit in the order of their indices, i.e., `tx.payload`. -/
def TxDetailIdx.all : List TxDetailIdx :=
  [.enableBalanceCheck1, .accountId1, .tokenId1, .balance1, .sign1, .ay1, .nonce1,
    .enableBalanceCheck2, .accountId2, .tokenId2, .balance2, .sign2, .ay2, .nonce2,
    .enableSigCheck1, .sigL2Hash1, .s1, .r8x1, .r8y1, .enableSigCheck2, .sigL2Hash2, .s2, .r8x2,
    .r8y2, .amount, .amount1, .amount2, .balance3, .balance4, .order1Pos, .order2Pos,
    .oldOrder1Id, .oldOrder1TokenSell, .oldOrder1FilledSell, .oldOrder1AmountSell,
    .oldOrder1TokenBuy, .oldOrder1FilledBuy, .oldOrder1AmountBuy, .newOrder1Id,
    .newOrder1TokenSell, .newOrder1FilledSell, .newOrder1AmountSell, .newOrder1TokenBuy,
    .newOrder1FilledBuy, .newOrder1AmountBuy, .oldOrder2Id, .oldOrder2TokenSell,
    .oldOrder2FilledSell, .oldOrder2AmountSell, .oldOrder2TokenBuy, .oldOrder2FilledBuy,
    .oldOrder2AmountBuy, .newOrder2Id, .newOrder2TokenSell, .newOrder2FilledSell,
    .newOrder2AmountSell, .newOrder2TokenBuy, .newOrder2FilledBuy, .newOrder2AmountBuy, .dstIsNew]

/-- The index in a payload. -/
def TxDetailIdx.toNat (i : TxDetailIdx) : ℕ := i.ctorIdx

/-- The inputs in the order of their numbers. -/
def Payload.toVec (payload : Payload) : List Fr := TxDetailIdx.all.map payload

omit [Texts] in
/-- Every input stands at its number. -/
theorem Payload.toVec_getElem? (payload : Payload) (i : TxDetailIdx) :
    payload.toVec[i.toNat]? = some (payload i) := by
  have hall : TxDetailIdx.all[i.toNat]? = some i := by cases i <;> rfl
  rw [toVec, List.getElem?_map, hall]
  rfl

omit [Texts] in
/-- The vector holds all the inputs. -/
theorem Payload.toVec_injective : Function.Injective Payload.toVec := by
  intro payload payload' h
  funext i
  have hi := payload.toVec_getElem? i
  rw [h, payload'.toVec_getElem? i] at hi
  exact (Option.some.inj hi).symm

/-- `U256::from_big_endian` -/
def U256.fromBigEndian (bytes : List UInt8) : ℕ :=
  Nat.ofDigits 256 (bytes.reverse.map UInt8.toNat)

/-- `Fr::from_slice` of the 16 bytes of the low half of a number. -/
def U256.lowU128 (n : ℕ) : Fr := (n % 2 ^ 128 : ℕ)

/-- A block as it is written: the hash of the public data has two halves of 128 bits. -/
structure L2BlockSerde where
  oldRoot : Fr
  newRoot : Fr
  txdataHashHi : Fr
  txdataHashLo : Fr
  txsType : List TxType
  encodedTxs : List (List Fr)
  balancePathElements : List (List (List Fr))
  orderPathElements : List (List (List Fr))
  accountPathElements : List (List (List Fr))
  orderRoots : List (List Fr)
  oldAccountRoots : List Fr
  newAccountRoots : List Fr

/-- `From<L2BlockDetail>` -/
def L2BlockSerde.from (origin : L2BlockDetail) : L2BlockSerde where
  oldRoot := origin.oldRoot
  newRoot := origin.newRoot
  txdataHashLo := U256.lowU128 (U256.fromBigEndian origin.txdataHash)
  txdataHashHi := U256.lowU128 (U256.fromBigEndian origin.txdataHash >>> 128)
  txsType := origin.txsType
  encodedTxs := origin.encodedTxs.map Payload.toVec
  balancePathElements := origin.balancePathElements
  orderPathElements := origin.orderPathElements
  accountPathElements := origin.accountPathElements
  orderRoots := origin.orderRoots
  oldAccountRoots := origin.oldAccountRoots
  newAccountRoots := origin.newAccountRoots

namespace L2BlockSerde

/-- `[MerklePathStr; N]` for each transaction -/
def paths (n : ℕ) : Format (List (List (List Fr))) := (MerkleLeafStr.format.list.array n).list

/-- The names of the fields are those that the circuit expects. -/
def serialize (b : L2BlockSerde) : Json :=
  .obj [
    ("oldRoot", FrStr.serialize b.oldRoot),
    ("newRoot", FrStr.serialize b.newRoot),
    ("txDataHashHi", FrStr.serialize b.txdataHashHi),
    ("txDataHashLo", FrStr.serialize b.txdataHashLo),
    ("txsType", TxType.format.list.write b.txsType),
    ("encodedTxs", FrStr.format.list.list.write b.encodedTxs),
    ("balancePathElements", (paths 4).write b.balancePathElements),
    ("orderPathElements", (paths 2).write b.orderPathElements),
    ("accountPathElements", (paths 2).write b.accountPathElements),
    ("orderRoots", (FrStr.format.array 2).list.write b.orderRoots),
    ("oldAccountRoots", FrStr.format.list.write b.oldAccountRoots),
    ("newAccountRoots", FrStr.format.list.write b.newAccountRoots)]

/-- The names of the fields, in the order they are written. -/
def fieldNames : List String :=
  ["oldRoot", "newRoot", "txDataHashHi", "txDataHashLo", "txsType", "encodedTxs",
    "balancePathElements", "orderPathElements", "accountPathElements", "orderRoots",
    "oldAccountRoots", "newAccountRoots"]

/-- Of a structure with no field left out. -/
def deserialize (j : Json) : Option L2BlockSerde := do
  let [oldRoot, newRoot, txdataHashHi, txdataHashLo, txsType, encodedTxs, balancePathElements,
    orderPathElements, accountPathElements, orderRoots, oldAccountRoots, newAccountRoots] ←
      j.fields fieldNames | none
  let oldRoot ← FrStr.deserialize oldRoot
  let newRoot ← FrStr.deserialize newRoot
  let txdataHashHi ← FrStr.deserialize txdataHashHi
  let txdataHashLo ← FrStr.deserialize txdataHashLo
  let txsType ← TxType.format.list.read txsType
  let encodedTxs ← FrStr.format.list.list.read encodedTxs
  let balancePathElements ← (paths 4).read balancePathElements
  let orderPathElements ← (paths 2).read orderPathElements
  let accountPathElements ← (paths 2).read accountPathElements
  let orderRoots ← (FrStr.format.array 2).list.read orderRoots
  let oldAccountRoots ← FrStr.format.list.read oldAccountRoots
  let newAccountRoots ← FrStr.format.list.read newAccountRoots
  some {
    oldRoot, newRoot, txdataHashHi, txdataHashLo, txsType, encodedTxs, balancePathElements,
    orderPathElements, accountPathElements, orderRoots, oldAccountRoots, newAccountRoots }

/-- The detail of a block. -/
def format : Format L2BlockSerde := ⟨serialize, deserialize⟩

/-- There are as many paths and roots for each transaction as in the arrays of the source. -/
structure Sized (b : L2BlockSerde) : Prop where
  balancePathElements : ∀ paths ∈ b.balancePathElements, paths.length = 4
  orderPathElements : ∀ paths ∈ b.orderPathElements, paths.length = 2
  accountPathElements : ∀ paths ∈ b.accountPathElements, paths.length = 2
  orderRoots : ∀ roots ∈ b.orderRoots, roots.length = 2

variable [Texts.Documented]

/-- The paths of a transaction are read back if there are as many as there should be. -/
theorem lawful_paths (n : ℕ) : (paths n).Lawful fun l => ∀ paths ∈ l, paths.length = n :=
  ((MerkleLeafStr.lawful.list.array n).list).congr fun l => by simp

/-- The two roots of the orders of a transaction are read back. -/
theorem lawful_orderRoots :
    (FrStr.format.array 2).list.Lawful fun l => ∀ roots ∈ l, roots.length = 2 :=
  (FrStr.lawful.array 2).list.congr fun l => by simp

/-- What is written is read back, field by field. -/
theorem deserialize_serialize {b : L2BlockSerde} (h : b.Sized) :
    deserialize b.serialize = some b := by
  have hnodup : fieldNames.Nodup := by decide
  have hfields : b.serialize.fields fieldNames = some [_, _, _, _, _, _, _, _, _, _, _, _] :=
    Json.fields_obj hnodup
  have hfr (x : Fr) : FrStr.deserialize (FrStr.serialize x) = some x :=
    FrStr.lawful.read_write x trivial
  have hfrs (l : List Fr) : FrStr.format.list.read (FrStr.format.list.write l) = some l :=
    FrStr.lawful.list.read_write l fun _ _ => trivial
  simp only [deserialize, hfields, hfr, hfrs, Option.bind_eq_bind, Option.bind_some,
    TxType.lawful.list.read_write _ fun _ _ => trivial,
    FrStr.lawful.list.list.read_write _ fun _ _ _ _ => trivial,
    (lawful_paths 4).read_write _ h.balancePathElements,
    (lawful_paths 2).read_write _ h.orderPathElements,
    (lawful_paths 2).read_write _ h.accountPathElements,
    lawful_orderRoots.read_write _ h.orderRoots]

/-- Each vector that is read has the sizes that its format asks for. -/
theorem sized_of_deserialize {j : Json} {b : L2BlockSerde} (h : deserialize j = some b) :
    b.Sized := by
  obtain ⟨fields, -, h⟩ := Option.bind_eq_some_iff.1 h
  split at h
  · simp only [Option.bind_eq_bind, Option.bind_eq_some_iff] at h
    obtain ⟨_, -, _, -, _, -, _, -, _, -, _, -, balancePaths, hbalance, orderPaths, horder,
      accountPaths, haccount, roots, hroots, _, -, _, -, h⟩ := h
    obtain rfl := Option.some.inj h
    exact ⟨(lawful_paths 4).of_read _ _ hbalance, (lawful_paths 2).of_read _ _ horder,
      (lawful_paths 2).of_read _ _ haccount, lawful_orderRoots.of_read _ _ hroots⟩
  · cases h

/-- Blocks of the right sizes are read back, and no others are read. -/
theorem lawful : format.Lawful Sized where
  read_write _ := deserialize_serialize
  of_read _ _ := sized_of_deserialize

/-- **What is read is what has the sizes of the arrays**, and nothing else is read back as it is
    written. -/
theorem deserialize_serialize_iff (b : L2BlockSerde) :
    (deserialize b.serialize = some b ↔ b.Sized) ∧ ∀ j, deserialize j = some b → b.Sized :=
  ⟨lawful.read_write_iff, fun j => lawful.of_read j b⟩

end L2BlockSerde

end Serialize

/-- One transaction, which has all of its paths. -/
def L2BlockSerde.oneTx : L2BlockSerde where
  oldRoot := 5
  newRoot := 6
  txdataHashHi := 7
  txdataHashLo := 8
  txsType := [.deposit]
  encodedTxs := [[1, 0]]
  balancePathElements := [[[1, 2], [], [3], [4]]]
  orderPathElements := [[[1], [2]]]
  accountPathElements := [[[], [3]]]
  orderRoots := [[9, 10]]
  oldAccountRoots := [5]
  newAccountRoots := [6]

open L2BlockSerde in
attribute [local instance] Texts.sample in
/-- With one root of orders where there should be two, a block is not read back. -/
theorem L2BlockSerde.deserialize_serialize_iff_oneTx :
    deserialize oneTx.serialize = some oneTx ∧
      deserialize { oneTx with orderRoots := [[9]] }.serialize ≠
        some { oneTx with orderRoots := [[9]] } := by
  have := Texts.documented_sample
  refine ⟨(deserialize_serialize_iff oneTx).1.2 ⟨?_, ?_, ?_, ?_⟩, fun h => ?_⟩
  · simp [oneTx]
  · simp [oneTx]
  · simp [oneTx]
  · simp [oneTx]
  · have hsized := (deserialize_serialize_iff { oneTx with orderRoots := [[9]] }).1.1 h
    exact absurd (hsized.orderRoots [9] (List.mem_singleton.2 rfl)) (by decide)

/-! ## The blocks of a run -/

section Run

/-- The digits of a number are bytes. -/
theorem U256.digits_lt (bytes : List UInt8) : ∀ d ∈ bytes.reverse.map UInt8.toNat, d < 256 := by
  intro d hd
  obtain ⟨b, -, rfl⟩ := List.mem_map.1 hd
  exact b.toNat_lt

theorem U256.fromBigEndian_lt {bytes : List UInt8} (hlen : bytes.length = 32) :
    fromBigEndian bytes < 2 ^ 256 := by
  have hlt := Nat.ofDigits_lt_base_pow_length (by decide) (digits_lt bytes)
  rw [List.length_map, List.length_reverse, hlen] at hlt
  exact hlt.trans_eq (pow_mul 2 8 32).symm

/-- Bytes of the same number are the same, if they are equally many. -/
theorem U256.fromBigEndian_inj {bytes bytes' : List UInt8} (hlen : bytes.length = bytes'.length)
    (h : fromBigEndian bytes = fromBigEndian bytes') : bytes = bytes' := by
  have hmap := Nat.ofDigits_inj_of_len_eq (by decide) (by simp [hlen]) (digits_lt bytes)
    (digits_lt bytes') h
  exact List.reverse_injective (List.map_injective_iff.2 (fun _ _ => UInt8.toNat_inj.1) hmap)

theorem U256.lowU128_val (n : ℕ) : (lowU128 n).val = n % 2 ^ 128 :=
  Fr.val_natCast (Nat.mod_lt _ (Nat.two_pow_pos _)) (by decide)

/-- A number of 256 bits is given by its two halves. -/
theorem U256.eq_of_lowU128 {n m : ℕ} (hn : n < 2 ^ 256) (hm : m < 2 ^ 256)
    (hhi : lowU128 (n >>> 128) = lowU128 (m >>> 128)) (hlo : lowU128 n = lowU128 m) : n = m := by
  have hhi := congrArg ZMod.val hhi
  have hlo := congrArg ZMod.val hlo
  simp only [lowU128_val, Nat.shiftRight_eq_div_pow] at hhi hlo
  omega

/-- What is saved of a block says what the block is. -/
theorem L2BlockSerde.from_inj {d d' : L2BlockDetail} (hlen : d.txdataHash.length = 32)
    (hlen' : d'.txdataHash.length = 32) (h : L2BlockSerde.from d = L2BlockSerde.from d') :
    d = d' := by
  have hhash : d.txdataHash = d'.txdataHash := by
    refine U256.fromBigEndian_inj (hlen.trans hlen'.symm) (U256.eq_of_lowU128
      (U256.fromBigEndian_lt hlen) (U256.fromBigEndian_lt hlen') ?_ ?_)
    · exact congrArg L2BlockSerde.txdataHashHi h
    · exact congrArg L2BlockSerde.txdataHashLo h
  have htxs : d.encodedTxs = d'.encodedTxs :=
    List.map_injective_iff.2 Payload.toVec_injective (congrArg L2BlockSerde.encodedTxs h)
  cases d
  cases d'
  simp only [L2BlockSerde.from, L2BlockSerde.mk.injEq] at h hhash htxs
  obtain ⟨rfl, rfl, -, -, rfl, -, rfl, rfl, rfl, rfl, rfl, rfl⟩ := h
  rw [hhash, htxs]

variable [FluidexCommon] {lv lv' : Levels} {n : Node lv} {n' : Node lv'}

/-- The block comes from `forge_with_txs`. -/
def L2Block.Forged (block : L2Block) : Prop := ∃ blockId txs encoder encoder',
  forgeWithTxs blockId txs encoder = .ok (block, encoder')

/-- A forged block has four paths of balances for each transaction, and two of the others. -/
theorem L2Block.Forged.sized {block : L2Block} (h : block.Forged) :
    (L2BlockSerde.from block.detail).Sized := by
  obtain ⟨_, txs, _, _, hforge⟩ := h
  obtain ⟨-, hholds⟩ := forgeWithTxs_spec hforge
  constructor
  · change ∀ paths ∈ block.detail.balancePathElements, _
    rw [hholds.balancePathElements]
    simp
  · change ∀ paths ∈ block.detail.orderPathElements, _
    rw [hholds.orderPathElements]
    simp
  · change ∀ paths ∈ block.detail.accountPathElements, _
    rw [hholds.accountPathElements]
    simp
  · change ∀ roots ∈ block.detail.orderRoots, _
    rw [hholds.orderRoots]
    simp

/-- The hash is one of some bytes, and so has the length of a hash. -/
theorem L2Block.Forged.txdataHash {block : L2Block} (h : block.Forged) :
    ∃ bytes, block.detail.txdataHash = FluidexCommon.sha256 bytes := by
  obtain ⟨_, txs, _, _, hforge⟩ := h
  simp only [forgeWithTxs, Exec.bind_eq_ok_iff, Exec.unwrap_eq_ok_iff, Exec.pure_eq_ok_iff,
    Prod.mk.injEq] at hforge
  obtain ⟨_, -, _, -, _, -, rfl, -⟩ := hforge
  exact ⟨_, rfl⟩

/-- Every block of the loop is forged. -/
theorem ManagerWrapper.popLoop_forged {m m' : ManagerWrapper lv}
    {persistEveryNBlock i fuel j : ℕ} {blocks : List L2Block} {snapshots : List (Snapshot lv)}
    (hr : m.popLoop persistEveryNBlock i fuel = .ok ((blocks, snapshots, j), m')) :
    ∀ block ∈ blocks, block.Forged := by
  induction fuel generalizing m i blocks snapshots with
  | zero =>
    simp only [popLoop, Exec.pure_eq_ok_iff, Prod.mk.injEq] at hr
    obtain ⟨⟨rfl, -, -⟩, -⟩ := hr
    exact List.forall_mem_nil _
  | succ fuel ih =>
    rw [popLoop] at hr
    split at hr
    · simp only [Exec.bind_eq_ok_iff, Prod.exists, Exec.pure_eq_ok_iff, Prod.mk.injEq] at hr
      obtain ⟨block, encoder, hforge, _, -, blocks', _, _, _, hr, ⟨rfl, -, rfl⟩, rfl⟩ := hr
      exact List.forall_mem_cons.2 ⟨⟨_, _, _, _, hforge⟩, ih hr⟩
    · simp only [Exec.pure_eq_ok_iff, Prod.mk.injEq] at hr
      obtain ⟨⟨rfl, -, -⟩, -⟩ := hr
      exact List.forall_mem_nil _

/-- Every block that was ever popped is forged. -/
theorem Node.forged {allowed : Node lv → Op → Prop} {nTx persistEveryNBlock : ℕ}
    {blockOffset : Option ℕ}
    (hn : Exec.Reachable step allowed (new lv nTx blockOffset persistEveryNBlock) n) :
    ∀ block ∈ n.blocks, block.Forged := by
  refine hn.invariant (List.forall_mem_nil _) fun m op m' _ hm _ hst => ?_
  cases step_stepped hst with
  | flush _ => exact hm
  | pop hpop =>
    simp only [ManagerWrapper.popAllBlocks, Exec.bind_eq_ok_iff, Prod.exists, Exec.pure_eq_ok_iff,
      Prod.mk.injEq] at hpop
    obtain ⟨blocks, _, _, _, hpop, ⟨rfl, -⟩, -⟩ := hpop
    exact List.forall_mem_append.2 ⟨hm, ManagerWrapper.popLoop_forged hpop⟩
  | @apply _ raw _ _ =>
    cases raw with
    | none => exact hm
    | some _ => exact hm

/-- What is saved of a block of a run is read back, and is that of no other block. -/
theorem detail_eq_of_json [Texts] [Texts.Documented]
    (hsha : ∀ bytes, (FluidexCommon.sha256 bytes).length = 32)
    {nTx nTx' persistEveryNBlock persistEveryNBlock' : ℕ} {blockOffset blockOffset' : Option ℕ}
    {ops ops' : List Op}
    (hrun : Exec.run Node.step (Node.new lv nTx blockOffset persistEveryNBlock) ops = .ok n)
    (hrun' : Exec.run Node.step (Node.new lv' nTx' blockOffset' persistEveryNBlock') ops' = .ok n')
    {block block' : L2Block} (hblock : block ∈ n.blocks) (hblock' : block' ∈ n'.blocks) :
    L2BlockSerde.deserialize (L2BlockSerde.from block.detail).serialize =
        some (L2BlockSerde.from block.detail) ∧
      ((L2BlockSerde.from block.detail).serialize = (L2BlockSerde.from block'.detail).serialize ↔
        block.detail = block'.detail) := by
  have hreach : Exec.Reachable Node.step (fun _ _ => True) _ n :=
    .run .init (fun _ _ _ => trivial) hrun
  have hreach' : Exec.Reachable Node.step (fun _ _ => True) _ n' :=
    .run .init (fun _ _ _ => trivial) hrun'
  have hforged := Node.forged hreach block hblock
  have hforged' := Node.forged hreach' block' hblock'
  refine ⟨L2BlockSerde.deserialize_serialize hforged.sized, fun hjson => ?_,
    fun hdetail => by rw [hdetail]⟩
  have hsaved := L2BlockSerde.lawful.write_inj hforged.sized hforged'.sized hjson
  obtain ⟨bytes, hbytes⟩ := hforged.txdataHash
  obtain ⟨bytes', hbytes'⟩ := hforged'.txdataHash
  exact L2BlockSerde.from_inj (hbytes ▸ hsha bytes) (hbytes' ▸ hsha bytes') hsaved

end Run

/-- Hashes of 32 bytes, to run the model with. -/
@[reducible] def FluidexCommon.sample32 : FluidexCommon :=
  { FluidexCommon.sample with sha256 := fun bytes => (bytes ++ List.replicate 32 0).take 32 }

attribute [local instance] FluidexCommon.sample32 Texts.sample in
/-- Two blocks of one run, whose texts differ. -/
theorem detail_eq_of_json_streamOps :
    ∃ n block block', Exec.run Node.step (Node.new Levels.small 2 (some 7) 100) streamOps = .ok n ∧
      block ∈ n.blocks ∧ block' ∈ n.blocks ∧
      (L2BlockSerde.from block.detail).serialize ≠ (L2BlockSerde.from block'.detail).serialize := by
  obtain ⟨⟨n, block, block'⟩, hn⟩ := Exec.exists_eq_ok (do
    let n ← Exec.run Node.step (Node.new Levels.small 2 (some 7) 100) streamOps
    let block ← unwrap n.blocks.head?
    let block' ← unwrap n.blocks.getLast?
    assert (block.detail.oldRoot ≠ block'.detail.oldRoot) "roots"
    pure (n, block, block')) (by decide +kernel)
  simp only [Exec.bind_eq_ok_iff, Exec.unwrap_eq_ok_iff, Exec.assert_eq_ok_iff, Exec.pure_eq_ok_iff,
    Prod.mk.injEq] at hn
  obtain ⟨n, hn, block, hblock, block', hblock', _, hroots, rfl, rfl, rfl⟩ := hn
  have := Texts.documented_sample
  have hsha (bytes : List UInt8) : (FluidexCommon.sha256 bytes).length = 32 := by
    show ((bytes ++ List.replicate 32 0).take 32).length = 32
    simp
  have hmem := List.mem_of_head? hblock
  have hmem' := List.mem_of_getLast? hblock'
  refine ⟨n, block, block', hn, hmem, hmem', fun hjson => hroots ?_⟩
  exact congrArg L2BlockDetail.oldRoot ((detail_eq_of_json hsha hn hn hmem hmem').2.1 hjson)

end Rollup
