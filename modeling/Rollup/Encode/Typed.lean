import Rollup.Encode.Floats
import Rollup.Encode.Writes

/-!
# Encoding the transactions themselves

The `EncodeForPubData` impls of `types/l2/tx.rs`: the other encoder, which starts
from the transactions and not from their raw transactions. It writes the fields of
the same schemes.
-/

namespace Rollup

/-- `Float40::from_bigint`, of a crate outside the repository. -/
class FromBigint where
  fromBigint : ℤ → Except AnyhowError Float40

/-- `BigInt::to_u128` -/
def toU128 (n : ℤ) : Option U128 :=
  if 0 ≤ n ∧ n < 2 ^ 128 then some (BitVec.ofInt 128 n) else none

namespace TxDataEncoder

/-- The bytes of a compressed amount. -/
def amountLen : ℕ := 5

/-- The id of an account, an `u32`. -/
def encodeAccount (accountId : ℕ) : Encoding Unit := do
  let encoder ← get
  Encoding.write fun ctx => ctx.encodePrimint (BitVec.ofNat 32 accountId) encoder.accountBits

/-- The id of a token, an `u32`. -/
def encodeToken (tokenId : ℕ) : Encoding Unit := do
  let encoder ← get
  Encoding.write fun ctx => ctx.encodePrimint (BitVec.ofNat 32 tokenId) encoder.tokenBits

/-- The position of an order, an `u32`. -/
def encodeOrder (orderPos : ℕ) : Encoding Unit := do
  let encoder ← get
  Encoding.write fun ctx => ctx.encodePrimint (BitVec.ofNat 32 orderPos) encoder.orderBits

/-- The id of an order, with all its bits. -/
def encodeOrderId (orderId : ℕ) : Encoding Unit :=
  Encoding.write fun ctx => ctx.encodePrimint (BitVec.ofNat 32 orderId) 32

/-- An amount with all its bits, not compressed. -/
def encodeAmount (amount : U128) : Encoding Unit :=
  Encoding.write fun ctx => ctx.encodePrimint amount 128

/-- The length of a float is the one that is asserted. -/
def encodeFrCompressed [FluidexCommon] [FromBigint] (fr : Fr) : Encoding Unit := do
  let float ← encodeRawtxToPubdata.liftExcept (FromBigint.fromBigint fr.toBigint)
  let encodedBig ← encodeRawtxToPubdata.liftExcept (FluidexCommon.toEncodedInt float)
  let n ← Encoding.lift (unwrap (toU128 encodedBig))
  Encoding.write fun ctx => ctx.encodePrimint n (amountLen * 8)

end TxDataEncoder

section Typed

variable [FluidexCommon]

open TxDataEncoder

/-- The new key of the account. -/
def UpdateKeyTx.encodePubdata (tx : UpdateKeyTx) : Encoding Unit := do
  encodeHeading 1
  encodeAccount tx.accountId
  encodeFr tx.l2key.sign 1
  encodeFr tx.l2key.ay 254
  encodePadding

/-- The account stands twice. A deposit that brings a key has no encoding here. -/
def DepositTx.encodePubdata (tx : DepositTx) : Encoding Unit := do
  Encoding.lift (assert (tx.l2key = none) "self.l2key.is_none()")
  encodeHeading 0
  encodeAccount tx.accountId
  encodeAccount tx.accountId
  encodeToken tx.tokenId
  encodeAmount tx.amount
  encodePadding

/-- The sender, then the receiver. -/
def TransferTx.encodePubdata (tx : TransferTx) : Encoding Unit := do
  encodeHeading 0
  encodeAccount tx.fromId
  encodeAccount tx.toId
  encodeToken tx.tokenId
  encodeAmount tx.amount
  encodePadding

/-- The account stands twice, after a heading of its own. -/
def WithdrawTx.encodePubdata (tx : WithdrawTx) : Encoding Unit := do
  encodeHeading 4
  encodeAccount tx.accountId
  encodeAccount tx.accountId
  encodeToken tx.tokenId
  encodeAmount tx.amount
  encodePadding

/-- The orders are those of the trade, and must be supplied. None of them has to be filled. -/
def FullSpotTradeTx.encodePubdata [FromBigint] (tx : FullSpotTradeTx) (order1Pos order2Pos : ℕ) :
    Encoding Unit := do
  let order1 ← Encoding.lift (unwrap tx.makerOrder)
  let order2 ← Encoding.lift (unwrap tx.takerOrder)
  let trade := tx.trade
  encodeHeading ((if order1.isFilled then 2 else 0) + (if order2.isFilled then 4 else 0))
  encodeAccount trade.order1AccountId
  encodeAccount trade.order2AccountId
  encodeToken trade.tokenId1to2
  encodeToken trade.tokenId2to1
  encodeFrCompressed order1.totalSell
  encodeFrCompressed order1.totalBuy
  encodeOrder order1Pos
  encodeOrderId order1.orderId
  encodeFrCompressed order2.totalSell
  encodeFrCompressed order2.totalBuy
  encodeOrder order2Pos
  encodeOrderId order2.orderId
  encodePadding

/-! ## Fields -/

variable {x y : Encoding Unit} {e e' : TxDataEncoder}

/-- The computation writes this field. -/
abbrev Encoding.WritesField (x : Encoding Unit) (e : TxDataEncoder) (f : FrField) : Prop :=
  x.Writes e f.Fits f.field.bits

theorem Encoding.WritesField.single {f : FrField} (hx : x.WritesField e f) :
    x.WritesFields e [f] := by
  intro l e'
  rw [List.map_singleton, Bits.encode, List.flatMap_singleton, hx l e', List.forall_mem_singleton]

theorem Encoding.WritesField.cons {f : FrField} {fields : List FrField} (hx : x.WritesField e f)
    (hy : y.WritesFields e fields) : (x >>= fun _ => y).WritesFields e (f :: fields) := by
  intro l e'
  rw [List.forall_mem_cons, List.map_cons, Bits.encode, List.flatMap_cons]
  exact hx.bind hy l e'

variable [FluidexCommon.Documented]

/-- A number written bit by bit is the field of the field element it is the value of. -/
theorem writesField_primint {w : ℕ} {n : BitVec w} {f : FrField} (hval : f.fr.val = n.toNat)
    (hn : f.fr.val < 2 ^ 63 ∨ 64 ≤ f.width) (ht : f.truncated = false) :
    (Encoding.write fun ctx => ctx.encodePrimint n f.width).WritesField e f := by
  have hiff : f.Fits ↔ n.toNat < 2 ^ f.width := by
    rw [FrField.fits_iff hn, ht, hval, or_iff_right Bool.false_ne_true]
  have hbits : f.field.bits = Bits.ofNat f.width n.toNat := by
    rw [FrField.field_of_lt hn, Bits.Field.bits, hval]
  rw [Encoding.WritesField, hiff, hbits]
  exact writes_primint n f.width

/-- A `u32` is written as the field element it stands for. -/
theorem writesField_u32 {n : ℕ} (h : n < 2 ^ 32) (width : ℕ) :
    (Encoding.write fun ctx => ctx.encodePrimint (BitVec.ofNat 32 n) width).WritesField e
      ⟨n, width, false⟩ := by
  have hval := Fr.val_natCast h (by decide)
  refine writesField_primint (f := ⟨n, width, false⟩) ?_ (.inl ?_) rfl
  · rw [hval, BitVec.toNat_ofNat, Nat.mod_eq_of_lt h]
  · rw [hval]
    exact h.trans (by decide)

theorem writesField_encodeAccount {accountId : ℕ} (h : accountId < 2 ^ 32) :
    (encodeAccount accountId).WritesField e ⟨accountId, e.accountBits, false⟩ :=
  Encoding.Writes.get (fun _ => rfl) (writesField_u32 h e.accountBits)

theorem writesField_encodeToken {tokenId : ℕ} (h : tokenId < 2 ^ 32) :
    (encodeToken tokenId).WritesField e ⟨tokenId, e.tokenBits, false⟩ :=
  Encoding.Writes.get (fun _ => rfl) (writesField_u32 h e.tokenBits)

theorem writesField_encodeOrder {orderPos : ℕ} (h : orderPos < 2 ^ 32) :
    (encodeOrder orderPos).WritesField e ⟨orderPos, e.orderBits, false⟩ :=
  Encoding.Writes.get (fun _ => rfl) (writesField_u32 h e.orderBits)

/-- An order id always fits, so that truncating it changes nothing. -/
theorem writesField_encodeOrderId {orderId : ℕ} (h : orderId < 2 ^ 32) :
    (encodeOrderId orderId).WritesField e ⟨orderId, 32, true⟩ := by
  have hval := Fr.val_natCast h (by decide)
  have hfits : FrField.Fits ⟨orderId, 32, true⟩ ↔ FrField.Fits ⟨orderId, 32, false⟩ := by
    have hlt : ((orderId : ℕ) : Fr).val < 2 ^ 63 := hval.trans_lt (h.trans (by decide))
    rw [FrField.fits_iff (.inl hlt), FrField.fits_iff (.inl hlt)]
    exact iff_of_true (.inl rfl) (.inr (hval.trans_lt h))
  rw [Encoding.WritesField, hfits]
  exact writesField_u32 h 32

theorem writesField_encodeAmount (amount : U128) :
    (encodeAmount amount).WritesField e ⟨amount.toFr, 128, false⟩ :=
  writesField_primint (f := ⟨amount.toFr, 128, false⟩)
    (Fr.val_natCast amount.isLt (by decide)) (.inr (show 64 ≤ 128 by decide)) rfl

omit [FluidexCommon.Documented] in
theorem writesField_encodeFr (fr : Fr) (width : ℕ) :
    (encodeFr fr width).WritesField e ⟨fr, width, false⟩ :=
  FrField.writes_write ⟨fr, width, false⟩

/-- The floats are those of `compressFr`, when it succeeds. -/
def FromBigint.Compresses [FromBigint] : Prop :=
  ∀ fr c, compressFr fr = .ok c →
    (FromBigint.fromBigint fr.toBigint >>= FluidexCommon.toEncodedInt) = .ok c.toBigint

theorem writesField_encodeFrCompressed [FromBigint] (hfloat : FromBigint.Compresses) {fr c : Fr}
    (hc : compressFr fr = .ok c) : (encodeFrCompressed fr).WritesField e ⟨c, 40, false⟩ := by
  obtain ⟨float, hfrom, hto⟩ := Exec.bind_eq_ok_iff.1 (hfloat fr c hc)
  have hlt := (compressFr_spec hc).1
  have hu128 : toU128 c.toBigint = some (BitVec.ofNat 128 c.val) := by
    have hrange : 0 ≤ c.toBigint ∧ c.toBigint < 2 ^ 128 := by
      rw [Fr.toBigint]
      omega
    exact (if_pos hrange).trans (congrArg some (BitVec.ofInt_natCast 128 c.val))
  have hwrite : (Encoding.write fun ctx =>
      ctx.encodePrimint (BitVec.ofNat 128 c.val) (amountLen * 8)).WritesField e ⟨c, 40, false⟩ := by
    refine writesField_primint (f := ⟨c, 40, false⟩) ?_ (.inl (hlt.trans (by decide))) rfl
    rw [BitVec.toNat_ofNat, Nat.mod_eq_of_lt (hlt.trans (by decide))]
  intro l e'
  rw [← hwrite l e', encodeFrCompressed, leads_liftExcept]
  simp only [hfrom, Except.toOption, Option.some.injEq, exists_eq_left']
  rw [leads_liftExcept]
  simp only [hto, Except.toOption, Option.some.injEq, exists_eq_left']
  rw [leads_lift]
  simp only [hu128, unwrap, Exec.unwrap_some, Except.ok.injEq, exists_eq_left']

end Typed

/-- An instance to run the model with. -/
@[reducible] def FromBigint.sample : FromBigint where
  fromBigint n :=
    if n = 0 then .ok ⟨0, 0⟩
    else
      let (significand, exponent) := stripZeros 77 n 0
      .ok ⟨significand, exponent⟩

attribute [local instance] FluidexCommon.sample FromBigint.sample in
theorem FromBigint.sample_compresses : FromBigint.Compresses := by
  intro fr c hc
  have := FluidexCommon.sample_documented
  unfold FromBigint.fromBigint FromBigint.sample
  dsimp only
  by_cases hzero : fr.toBigint = 0
  · rw [compressFr, if_pos hzero] at hc
    obtain rfl := Except.ok.inj hc
    rw [if_pos hzero]
    rfl
  · obtain ⟨f, hf, -, -, -, -, hto, -⟩ := compressFr_float hc hzero
    rw [if_neg hzero, ← hf]
    exact hto

end Rollup
