import Mathlib.Algebra.Order.Floor.Ring
import Mathlib.Data.Rat.Floor
import Rollup.Manager

/-!
# The messages

`msg/`: the messages of the exchange, checked and turned into transactions of the
manager by a `Processor`.

* `RustDecimal` and `Babyjubjub` are what the code calls in the crates of the
  decimals and of the signatures. What the results rely on is documented
  (`RustDecimal.Documented`): a decimal is rounded down when it is converted to an
  amount, and a difference of decimals is rounded if it has too many digits.
* The functions of a `Processor` take a `Node`, and step it.
-/

namespace Rollup

/-! ## Decimals -/

/-- `rust_decimal::Decimal` and `DecimalExt` -/
class RustDecimal where
  Decimal : Type
  /-- The number a decimal stands for. -/
  value : Decimal → ℚ
  /-- The closest number that is a decimal. -/
  nearest : ℚ → ℚ
  /-- The sign bit, which zero has too. -/
  isSignNegative : Decimal → Bool
  neg : Decimal → Decimal
  /-- A difference may overflow. -/
  sub : Decimal → Decimal → Except Panic Decimal
  /-- An amount, in units of `10 ^ -prec`. -/
  toU64 : Decimal → (prec : ℕ) → Except Panic UInt64
  /-- The same, as a field element. -/
  toFr : Decimal → (prec : ℕ) → Except Panic Fr

export RustDecimal (Decimal)

namespace RustDecimal

/-- What is documented of the decimals. -/
structure Documented [RustDecimal] : Prop where
  nonneg : ∀ d, isSignNegative d = false → 0 ≤ value d
  value_neg : ∀ d, value (neg d) = -value d
  nearest_mono : Monotone nearest
  nearest_value : ∀ d, nearest (value d) = value d
  value_sub : ∀ c d e, sub c d = .ok e → value e = nearest (value c - value d)
  toU64_eq : ∀ d prec n, toU64 d prec = .ok n → (n.toNat : ℤ) = ⌊value d * 10 ^ prec⌋
  toFr_eq : ∀ d prec x, 0 ≤ value d → toFr d prec = .ok x → (x.val : ℤ) = ⌊value d * 10 ^ prec⌋

/-- A number rounded down to units of `10 ^ -prec`, if they are a `u64`. -/
def units (q : ℚ) (prec : ℕ) : Option ℕ :=
  if 0 ≤ ⌊q * 10 ^ prec⌋ ∧ ⌊q * 10 ^ prec⌋ < 2 ^ 64 then some ⌊q * 10 ^ prec⌋.toNat else none

theorem units_eq_some {q : ℚ} {prec n : ℕ} (h : units q prec = some n) :
    (n : ℤ) = ⌊q * 10 ^ prec⌋ ∧ n < 2 ^ 64 := by
  rw [units] at h
  split at h
  · next hlt =>
    obtain rfl := Option.some.inj h
    have hn := Int.toNat_of_nonneg hlt.1
    exact ⟨hn, by omega⟩
  · cases h

/-- Decimals of any precision, to run the model with. -/
@[reducible] def sample : RustDecimal where
  Decimal := ℚ
  value d := d
  nearest q := q
  isSignNegative d := d < 0
  neg d := -d
  sub c d := .ok (c - d)
  toU64 d prec := UInt64.ofNat <$> unwrap (units d prec)
  toFr d prec := Nat.cast <$> unwrap (units d prec)

theorem documented_sample : sample.Documented := by
  refine @Documented.mk sample (fun d h => ?_) (fun _ => rfl) monotone_id (fun _ => rfl) ?_ ?_ ?_
  · exact not_lt.1 (of_decide_eq_false h)
  · rintro c d e he
    exact (Except.ok.inj he).symm
  · intro d prec n hn
    obtain ⟨m, hm, rfl⟩ := Exec.map_eq_ok_iff.1 hn
    obtain ⟨heq, hlt⟩ := units_eq_some (Exec.unwrap_eq_ok_iff.1 hm)
    rw [UInt64.toNat_ofNat_of_lt' hlt]
    exact heq
  · intro d prec x _ hx
    obtain ⟨m, hm, rfl⟩ := Exec.map_eq_ok_iff.1 hx
    obtain ⟨heq, hlt⟩ := units_eq_some (Exec.unwrap_eq_ok_iff.1 hm)
    rw [Fr.val_natCast hlt (by decide)]
    exact heq

end RustDecimal

/-! ## Signatures -/

/-- `babyjubjub_rs`, and the signatures of `fluidex_common::l2::account` -/
class Babyjubjub where
  SignatureBJJ : Type
  Point : Type
  decompressSignature : Vector UInt8 64 → Except AnyhowError SignatureBJJ
  recoverPoint : ℤ → Bool → Except AnyhowError Point
  /-- `L2Account::verify_raw_using_pubkey` -/
  verifyRawUsingPubkey : Fr → SignatureBJJ → Point → Bool
  /-- `Signature::from_raw` -/
  fromRaw : Fr → SignatureBJJ → Signature

export Babyjubjub (SignatureBJJ)

namespace Babyjubjub

/-- A message signed by multiplying it with the key, to run the model with. -/
@[reducible] def sample : Babyjubjub where
  SignatureBJJ := ℕ
  Point := ℤ
  decompressSignature bytes := .ok (bytes.toList.foldr (fun b acc => b.toNat + 256 * acc) 0)
  recoverPoint y _ := .ok y
  verifyRawUsingPubkey msg sig pk := (sig : ℤ) = msg.val * pk
  fromRaw hash sig := ⟨hash, sig, 0, 0⟩

/-- The signature of a message for the sample. -/
def sampleSign (msg : Fr) (key : ℕ) : Vector UInt8 64 :=
  ⟨((List.range 64).map fun i => UInt8.ofNat (msg.val * key / 256 ^ i)).toArray, by simp⟩

end Babyjubjub

/-! ## Messages -/

/-- A withdrawal, with the balance the exchange has after it. -/
structure WithdrawMessage [RustDecimal] where
  userId : ℕ
  asset : String
  /-- What is added to the balance. -/
  change : Decimal
  /-- The balance after the withdrawal. -/
  balance : Decimal
  signature : Vector UInt8 64

/-- A message with the offset that it had in the queue. -/
structure Message (α : Type) where
  message : α
  offset : Option ℤ

/-- `unreachable!()` -/
def Panic.unreachable : Panic := .explicit "internal error: entered unreachable code"

/-- The tokens that the exchange lists. -/
def getTokenIdByName (tokenName : String) : Except Panic ℕ :=
  match tokenName with
  | "ETH" => .ok 0
  | "USDT" => .ok 1
  | "UNI" => .ok 2
  | "LINK" => .ok 3
  | "YFI" => .ok 4
  | "MATIC" => .ok 5
  | _ => .error .unreachable

/-- The decimals that the program keeps of a token. -/
def precTokenId (tokenId : ℕ) : Except Panic ℕ :=
  match tokenId with
  | 0 | 2 | 3 | 4 | 5 => .ok 4
  | 1 => .ok (4 + 2)
  | _ => .error .unreachable

variable [FluidexCommon] [RustDecimal] [Babyjubjub] {lv : Levels}

/-- A signature of zeros only stands for none, and is refused. -/
def bytesToSig (signature : Vector UInt8 64) : Except Panic SignatureBJJ := do
  Exec.assert (.explicit "empty signature") (signature ≠ Vector.replicate 64 0)
  unwrap (Babyjubjub.decompressSignature signature).toOption

namespace WithdrawTx

/-- The balance is not used. -/
def new (accountId tokenId : ℕ) (amount : U128) (_oldBalance : Fr) : WithdrawTx where
  accountId := accountId
  tokenId := tokenId
  amount := amount
  nonce := 0
  oldBalance := 0
  sig := Signature.default

/-- What the account signs: the last six digits of the amount are not part of it. -/
def hash (tx : WithdrawTx) : Fr :=
  Fr.hash [TxType.withdraw.toFr, tx.accountId, tx.tokenId, (tx.amount / 1000000).toFr, tx.nonce,
    tx.oldBalance]

end WithdrawTx

/-! ## The processor -/

/-- The signature must be one of the key of the account. -/
def GlobalState.checkSig (s : GlobalState lv) (accountId : ℕ) (msg : Fr) (sig : SignatureBJJ) :
    Except AnyhowError Unit :=
  if ¬s.hasAccount accountId then .error ⟨"account not found"⟩
  else do
    let acc := s.getAccount accountId
    let pubKey ← Babyjubjub.recoverPoint acc.ay.toBigint (acc.sign ≠ 0)
    if Babyjubjub.verifyRawUsingPubkey msg sig pubKey then pure ()
    else .error ⟨"verify sig failed"⟩

/-- The handler of the messages, which checks their signatures or does not. -/
structure Processor where
  enableCheckSig : Bool

/-- A withdrawal that its account has not signed stops the program. -/
def checkWithdrawSig (s : GlobalState lv) (withdraw : WithdrawTx) (sig : SignatureBJJ) :
    Except Panic Unit :=
  Exec.unwrap (.explicit "invalid sig for withdraw")
    (s.checkSig withdraw.accountId withdraw.hash sig).toOption

open RustDecimal in
/-- The balance before the withdrawal is checked, the one after it is not. -/
def Processor.handleWithdrawMsg (p : Processor) (n : Node lv) (message : Message WithdrawMessage) :
    Except Panic (Node lv) := do
  let withdraw := message.message
  assert (isSignNegative withdraw.change = true) "should be a withdraw"
  let tokenId ← getTokenIdByName withdraw.asset
  let accountId := withdraw.userId
  let balanceBefore ← sub withdraw.balance withdraw.change
  assert (isSignNegative balanceBefore = false) "invalid balance"
  let expectedBalanceBefore ← n.state.getTokenBalance accountId tokenId
  let precision ← precTokenId tokenId
  let oldBalance ← toFr balanceBefore precision
  assert (expectedBalanceBefore = oldBalance) "expected_balance_before"
  let amount ← toU64 (neg withdraw.change) precision
  let rawSig ← bytesToSig withdraw.signature
  let withdrawTx := WithdrawTx.new accountId tokenId (.ofNat 128 amount.toNat) oldBalance
  let withdrawTx := { withdrawTx with sig := Babyjubjub.fromRaw withdrawTx.hash rawSig }
  if p.enableCheckSig then
    checkWithdrawSig n.state withdrawTx rawSig
  n.step (.withdraw withdrawTx message.offset)

end Rollup
