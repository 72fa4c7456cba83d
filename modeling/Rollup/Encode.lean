import Rollup.Types

/-!
# The public data

`types/l2/tx.rs`, `types/l2/tx_encode.rs` and the encoding functions of
`state/manager_wrapper.rs`: the raw transactions of a block are written bit by
bit, each of them padded to the same length (`dataBits`).

A write may return an error after some of its bits have been written: an
`Encoding` computation returns its result together with the encoder. The byte being
written is a `u8`, to which bits are added; an addition that overflows stops the program
with the overflow checks of the `dev` profile, and none does (`applyBit_ofBits`).
-/

namespace Rollup

/-! ## Bits -/

/-- The bytes that are full, and the one being written, with the number of its bits. -/
structure BitEncodeContext where
  encodingBuf : List UInt8
  applyingBit : ℕ
  encodingChar : UInt8

namespace BitEncodeContext

/-- Nothing has been written. -/
def new : BitEncodeContext := ⟨[], 0, 0⟩

/-- The full byte joins the others. -/
def nextByte (c : BitEncodeContext) : Except Panic BitEncodeContext := do
  assert (c.applyingBit = 8) "self.applying_bit == 8"
  pure ⟨c.encodingBuf ++ [c.encodingChar], 0, 0⟩

/-- The value of each bit of a byte, in the order they are written. -/
def mask : List UInt8 := [128, 64, 32, 16, 8, 4, 2, 1]

/-- Writing one bit, which is set unless `isZero`. -/
def applyBit (c : BitEncodeContext) (isZero : Bool) : Except Panic BitEncodeContext := do
  let encodingChar ←
    if isZero then pure c.encodingChar
    else do
      let bit ← unwrap mask[c.applyingBit]?
      Exec.assert .overflow (c.encodingChar.toNat + bit.toNat < 2 ^ 8)
      pure (c.encodingChar + bit)
  let c : BitEncodeContext := ⟨c.encodingBuf, c.applyingBit + 1, encodingChar⟩
  if c.applyingBit = 8 then c.nextByte else pure c

/-- `BitEncodeContext::seal` -/
def sealBuf (c : BitEncodeContext) : List UInt8 :=
  if c.applyingBit ≠ 0 then c.encodingBuf ++ [c.encodingChar] else c.encodingBuf

/-- The lowest bits of a number, the lowest one first; what remains of it is returned. -/
def applyBits (c : BitEncodeContext) : (n bits : ℕ) → Except Panic (ℕ × BitEncodeContext)
  | n, 0 => pure (n, c)
  | n, bits + 1 => do
    let c ← c.applyBit (n % 2 = 0)
    c.applyBits (n / 2) bits

/-- The error of an encoding that has cut its number. -/
def tooLong : AnyhowError := ⟨"can not encode number within specified bits"⟩

/-- The bits are written even if the number is too long for them. -/
def encodePrimint {w : ℕ} (c : BitEncodeContext) (n : BitVec w) (bits : ℕ) :
    Except Panic (Except AnyhowError Unit × BitEncodeContext) := do
  let (n, c) ← c.applyBits n.toNat bits
  pure (if n ≠ 0 then .error tooLong else .ok (), c)

/-- A negative number is refused before any bit is written. -/
def encodeBig (c : BitEncodeContext) (n : ℤ) (bits : ℕ) :
    Except Panic (Except AnyhowError Unit × BitEncodeContext) :=
  if n < 0 then pure (.error ⟨s!"have {n}, can only encode positive integer"⟩, c)
  else do
    let (un, c) ← c.applyBits n.toNat bits
    pure (if un ≠ 0 then .error tooLong else .ok (), c)

/-- Every byte fits into its 8 bits, so the `unwrap` does not fail. -/
def encodeBytes (c : BitEncodeContext) (bts : List UInt8) : Except Panic BitEncodeContext :=
  bts.foldlM (fun c ch => do
    let (result, c) ← c.encodePrimint ch.toBitVec 8
    let _ ← unwrap result.toOption
    pure c) c

/-- The number of bits written so far. -/
def totalBits (c : BitEncodeContext) : ℕ := c.encodingBuf.length * 8 + c.applyingBit

/-- The number of missing bits is returned if the bits are not aligned. It is only called with
    the length of a transaction, which is not zero. -/
def checkAlign (c : BitEncodeContext) (align : ℕ) : Except ℕ Unit :=
  if c.totalBits % align = 0 then .ok () else .error (align - c.totalBits % align)

/-- The loop of `padding`, which adds whole bytes at once when it can; `fuel` bounds its length. -/
def padBits (c : BitEncodeContext) : (fuel padding : ℕ) → Except Panic BitEncodeContext
  | 0, _ => pure c
  | _ + 1, 0 => pure c
  | fuel + 1, padding =>
    if 8 ≤ padding ∧ c.applyingBit = 0 then
      let padBytes := padding / 8
      padBits { c with encodingBuf := c.encodingBuf ++ List.replicate padBytes 0 } fuel
        (padding - padBytes * 8)
    else do
      let c ← c.applyBit true
      c.padBits fuel (padding - 1)

/-- Zeros up to the next multiple of `alignAt`. -/
def padding (c : BitEncodeContext) (alignAt : ℕ) : Except Panic BitEncodeContext := do
  Exec.assert .divisionByZero (alignAt ≠ 0)
  if c.totalBits % alignAt = 0 then pure c
  else c.padBits (alignAt - c.totalBits % alignAt) (alignAt - c.totalBits % alignAt)

end BitEncodeContext

/-! ## The encoder -/

/-- The context, with the widths of the fields and the length of a transaction. -/
structure TxDataEncoder where
  ctx : BitEncodeContext
  accountBits : ℕ
  tokenBits : ℕ
  orderBits : ℕ
  txEncodeBits : ℕ

/-- The length of an encoded transaction: that of the longest scheme, in whole bytes. -/
def dataBits (accountBits tokenBits orderBits : ℕ) : ℕ :=
  let common := 128 * 1 + accountBits * 2 + tokenBits * 1
  let spotTrade := 32 * 2 + accountBits * 2 + tokenBits * 2 + 40 * 4 + orderBits * 2
  let l2Key := 1 * 1 + 254 * 1 + accountBits * 1
  let ret := max (max common spotTrade) l2Key + 3
  if ret % 8 = 0 then ret else ret + 8 - ret % 8

/-- A computation writing to the encoder. -/
abbrev Encoding := ExceptT AnyhowError (StateT TxDataEncoder (Except Panic))

/-- An `unwrap`, or a failed assertion, inside of an `Encoding`. -/
def Encoding.lift {α : Type} (x : Except Panic α) : Encoding α :=
  ExceptT.lift (StateT.lift x)

/-- A function of the context, run on that of the encoder. -/
def Encoding.write
    (f : BitEncodeContext → Except Panic (Except AnyhowError Unit × BitEncodeContext)) :
    Encoding Unit :=
  ExceptT.mk fun encoder => do
    let (result, ctx) ← f encoder.ctx
    pure (result, { encoder with ctx := ctx })

/-- `Result::ok`: the error is dropped. -/
def Encoding.ok (x : Encoding Unit) : Encoding Unit :=
  tryCatch x fun _ => pure ()

namespace TxDataEncoder

/-- The widths are the levels of the trees. -/
def new (balanceLevels orderLevels accountLevels : ℕ) : TxDataEncoder where
  ctx := BitEncodeContext.new
  accountBits := accountLevels
  tokenBits := balanceLevels
  orderBits := orderLevels
  txEncodeBits := dataBits accountLevels balanceLevels orderLevels

variable [FluidexCommon]

/-- A field of fewer than 64 bits goes through an `i64`, a longer one through a big integer. -/
def encodeFr (fr : Fr) (bits : ℕ) : Encoding Unit :=
  if bits < 64 then do
    let n ← Encoding.lift (unwrap (FluidexCommon.toI64 fr))
    Encoding.write fun ctx => ctx.encodePrimint (BitVec.ofInt 64 n) bits
  else Encoding.write fun ctx => ctx.encodeBig fr.toBigint bits

/-- A transaction begins where the one before it ends, with 3 bits for its kind. -/
def encodeHeading (head : ℕ) : Encoding Unit := do
  let encoder ← get
  match encoder.ctx.checkAlign encoder.txEncodeBits with
  | .error n => throw ⟨s!"not align: miss {n} bits"⟩
  | .ok () => Encoding.write fun ctx => ctx.encodePrimint (BitVec.ofNat 32 head) 3

/-- A transaction ends at a multiple of the length that all share. -/
def encodePadding : Encoding Unit := do
  let encoder ← get
  Encoding.write fun ctx => do
    let ctx ← ctx.padding encoder.txEncodeBits
    pure (.ok (), ctx)

/-- The hash and the bytes of what was written; the next encoding starts afresh. -/
def finishWithRaw (encoder : TxDataEncoder) : (List UInt8 × List UInt8) × TxDataEncoder :=
  let encodedBytes := encoder.ctx.sealBuf
  ((FluidexCommon.sha256 encodedBytes, encodedBytes), { encoder with ctx := BitEncodeContext.new })

end TxDataEncoder

/-! ## Compressed amounts -/

variable [FluidexCommon]

/-- Moving the factors ten of a number to the exponent. A field element has at
    most 76 of them, so the loop ends before the `fuel`. -/
def stripZeros : (fuel : ℕ) → (encodeInt : ℤ) → (exponent : ℕ) → ℤ × ℕ
  | 0, encodeInt, exponent => (encodeInt, exponent)
  | fuel + 1, encodeInt, exponent =>
    let testSig := encodeInt / 10
    if encodeInt = testSig * 10 then stripZeros fuel testSig (exponent + 1)
    else (encodeInt, exponent)

/-- `compress_fr`: the encoding of an amount as a 40-bit float, when it is exact. -/
def compressFr (fr : Fr) : Except AnyhowError Fr :=
  if fr.toBigint = 0 then .ok 0
  else
    let (encodeInt, exponent) := stripZeros 77 fr.toBigint 0
    if 2 ^ 63 ≤ encodeInt then .error ⟨s!"significand part too big: {encodeInt}"⟩
    else if 34359738368 ≤ encodeInt then
      .error ⟨s!"too big for 35bit significand: {encodeInt}"⟩
    else do
      let n ← FluidexCommon.toEncodedInt ⟨encodeInt, exponent⟩
      pure (n : Fr)

/-- The amount that a 40-bit float stands for. -/
def decompressFr (fr : Fr) : Except AnyhowError Fr := do
  let decoder ← FluidexCommon.fromEncodedBigint fr.toBigint
  pure (FluidexCommon.toBigint decoder : Fr)

/-! ## Schemes -/

open TxDataEncoder (encodeFr encodeHeading encodePadding)

/-- Transfers, withdrawals and deposits without a key: two accounts, a token and an amount. -/
def forCommonTx (payload : Payload) : Encoding Unit := do
  let encoder ← get
  encodeFr (payload .accountId1) encoder.accountBits
  encodeFr (payload .accountId2) encoder.accountBits
  encodeFr (payload .tokenId1) encoder.tokenBits
  encodeFr (payload .amount) 128

/-- The order ids are truncated. -/
def forSpotTradeTx (payload : Payload) : Encoding Unit := do
  let encoder ← get
  encodeFr (payload .accountId1) encoder.accountBits
  encodeFr (payload .accountId2) encoder.accountBits
  encodeFr (payload .newOrder1TokenSell) encoder.tokenBits
  encodeFr (payload .newOrder2TokenSell) encoder.tokenBits
  encodeFr (payload .newOrder1AmountSell) 40
  encodeFr (payload .newOrder1AmountBuy) 40
  encodeFr (payload .order1Pos) encoder.orderBits
  Encoding.ok (encodeFr (payload .newOrder1Id) 32)
  encodeFr (payload .newOrder2AmountSell) 40
  encodeFr (payload .newOrder2AmountBuy) 40
  encodeFr (payload .order2Pos) encoder.orderBits
  Encoding.ok (encodeFr (payload .newOrder2Id) 32)

/-- Key updates, and deposits with a key: an account and its new key. -/
def forL2KeyTx (payload : Payload) : Encoding Unit := do
  let encoder ← get
  encodeFr (payload .accountId1) encoder.accountBits
  encodeFr (payload .sign2) 1
  encodeFr (payload .ay2) 254

/-- Whether an order is filled, on one side or the other, its totals being compressed. -/
def orderFilled (filledBuy amountBuy filledSell amountSell : Fr) : Except AnyhowError Bool := do
  let totalBuy ← decompressFr amountBuy
  if filledBuy = totalBuy then pure true
  else
    let totalSell ← decompressFr amountSell
    pure (filledSell = totalSell)

/-- `encode_rawtx_to_pubdata` -/
def encodeRawtxToPubdata (tx : RawTx) : Encoding Unit := do
  let payload := tx.payload
  match tx.txType with
  | .deposit =>
    if payload .dstIsNew ≠ 0 then
      Encoding.lift (assert (payload .amount = 0) "payload[AMOUNT] == 0")
      encodeHeading 1
      forL2KeyTx payload
    else
      encodeHeading 0
      forCommonTx payload
  | .transfer =>
    Encoding.lift (assert (payload .dstIsNew = 0) "payload[DST_IS_NEW] == 0")
    encodeHeading 0
    forCommonTx payload
  | .withdraw =>
    encodeHeading 4
    forCommonTx payload
  | .spotTrade =>
    let order1Filled ← liftExcept (orderFilled (payload .newOrder1FilledBuy)
      (payload .newOrder1AmountBuy) (payload .newOrder1FilledSell) (payload .newOrder1AmountSell))
    let order2Filled ← liftExcept (orderFilled (payload .newOrder2FilledBuy)
      (payload .newOrder2AmountBuy) (payload .newOrder2FilledSell) (payload .newOrder2AmountSell))
    let h := (if order1Filled then 2 else 0) + (if order2Filled then 4 else 0)
    Encoding.lift (assert (0 < h) "h > 0")
    encodeHeading h
    forSpotTradeTx payload
  | .nop => encodeHeading 0
  | .placeOrder => pure ()
  encodePadding
where
  /-- `?` on a result that does not depend on the encoder. -/
  liftExcept {α : Type} (x : Except AnyhowError α) : Encoding α :=
    ExceptT.mk (pure x)

end Rollup
