import Mathlib.Tactic.LinearCombination
import Rollup.Encode.Writes

/-!
# Compressed amounts

What the crates outside the repository document of their conversions
(`FluidexCommon.Documented`, of which the floats only need `FluidexCommon.FloatLaws`), and
what follows: the number written for a field is the value of the field element
(`FrField.field_eq`), and an amount that is compressed is the one that is decompressed
(`compressFr_spec`).
-/

namespace Rollup

/-- The conversions of the crates outside the repository. -/
class FluidexCommon.Documented [FluidexCommon] : Prop where
  /-- An element is converted to an `i64` if it is in its range. -/
  toI64_eq (x : Fr) : FluidexCommon.toI64 x = if x.val < 2 ^ 63 then some (x.val : ℤ) else none
  /-- The exponent of an encoded float is above its significand, on 5 and 35 bits. -/
  eq_of_toEncodedInt (f : Float40) (n : ℤ) : 0 ≤ f.significand → f.significand < 2 ^ 35 →
    FluidexCommon.toEncodedInt f = .ok n →
      f.exponent < 32 ∧ n = f.exponent * 2 ^ 35 + f.significand
  fromEncodedBigint_eq (f : Float40) : 0 ≤ f.significand → f.significand < 2 ^ 35 →
    f.exponent < 32 →
      FluidexCommon.fromEncodedBigint (f.exponent * 2 ^ 35 + f.significand) = .ok f
  toBigint_eq (f : Float40) : FluidexCommon.toBigint f = f.significand * 10 ^ f.exponent

/-- The conversions of floats: what is encoded is decoded. -/
class FluidexCommon.FloatLaws [FluidexCommon] : Prop where
  eq_of_toEncodedInt (f : Float40) (n : ℤ) : 0 ≤ f.significand → f.significand < 2 ^ 35 →
    FluidexCommon.toEncodedInt f = .ok n →
      f.exponent < 32 ∧ n = f.exponent * 2 ^ 35 + f.significand
  fromEncodedBigint_eq (f : Float40) : 0 ≤ f.significand → f.significand < 2 ^ 35 →
    f.exponent < 32 →
      FluidexCommon.fromEncodedBigint (f.exponent * 2 ^ 35 + f.significand) = .ok f
  toBigint_eq (f : Float40) : FluidexCommon.toBigint f = f.significand * 10 ^ f.exponent

instance [FluidexCommon] [FluidexCommon.Documented] : FluidexCommon.FloatLaws where
  eq_of_toEncodedInt := FluidexCommon.Documented.eq_of_toEncodedInt
  fromEncodedBigint_eq := FluidexCommon.Documented.fromEncodedBigint_eq
  toBigint_eq := FluidexCommon.Documented.toBigint_eq

attribute [local instance] FluidexCommon.sample in
/-- The instance the model is run with has the documented conversions. -/
theorem FluidexCommon.sample_documented : FluidexCommon.Documented where
  toI64_eq _ := rfl
  eq_of_toEncodedInt f n h0 hsig h := by
    unfold FluidexCommon.toEncodedInt FluidexCommon.sample at h
    dsimp only at h
    split at h
    · next hf => exact ⟨hf.2, (Except.ok.inj h).symm⟩
    · cases h
  fromEncodedBigint_eq f h0 hsig hexp := by
    obtain ⟨significand, exponent⟩ := f
    dsimp only at h0 hsig hexp
    have hrange : 0 ≤ (exponent : ℤ) * 2 ^ 35 + significand ∧
        (exponent : ℤ) * 2 ^ 35 + significand < 2 ^ 40 := by omega
    have hmod : ((exponent : ℤ) * 2 ^ 35 + significand) % 2 ^ 35 = significand := by omega
    have hdiv : (((exponent : ℤ) * 2 ^ 35 + significand) / 2 ^ 35).toNat = exponent := by omega
    unfold FluidexCommon.fromEncodedBigint FluidexCommon.sample
    dsimp only
    rw [if_pos hrange, hmod, hdiv]
  toBigint_eq _ := rfl

section Floats

variable [FluidexCommon]

/-! ## Removing the factors ten -/

omit [FluidexCommon] in
/-- The value of the float is that of the number. -/
theorem stripZeros_spec (fuel : ℕ) {n : ℤ} (hn : 0 ≤ n) (exponent : ℕ) :
    0 ≤ (stripZeros fuel n exponent).1 ∧
      (stripZeros fuel n exponent).1 * 10 ^ (stripZeros fuel n exponent).2 = n * 10 ^ exponent := by
  induction fuel generalizing n exponent with
  | zero => exact ⟨hn, rfl⟩
  | succ fuel ih =>
    rw [stripZeros]
    split
    · next hten =>
      obtain ⟨hnonneg, hvalue⟩ := ih (Int.ediv_nonneg hn (show (0 : ℤ) ≤ 10 by decide)) (exponent + 1)
      refine ⟨hnonneg, ?_⟩
      rw [hvalue, pow_succ']
      linear_combination (-(10 : ℤ) ^ exponent) * hten
    · exact ⟨hn, rfl⟩

/-! ## Compressing -/

section Compressing

variable [FluidexCommon.FloatLaws]

theorem decompressFr_zero : decompressFr 0 = .ok 0 := by
  have hfloat := FluidexCommon.FloatLaws.fromEncodedBigint_eq ⟨0, 0⟩ le_rfl (by decide) (by decide)
  have hzero : Fr.toBigint 0 = (((⟨0, 0⟩ : Float40).exponent : ℤ) * 2 ^ 35 + 0) := rfl
  rw [decompressFr, hzero, hfloat, Exec.ok_bind, FluidexCommon.FloatLaws.toBigint_eq]
  rfl

/-- The float that an amount is compressed to. -/
theorem compressFr_float {fr c : Fr} (h : compressFr fr = .ok c) (hzero : fr.toBigint ≠ 0) :
    ∃ f : Float40, (f.significand, f.exponent) = stripZeros 77 fr.toBigint 0 ∧
      0 ≤ f.significand ∧ f.significand < 2 ^ 35 ∧ f.exponent < 32 ∧ c.val < 2 ^ 40 ∧
      FluidexCommon.toEncodedInt f = .ok c.toBigint ∧
      c.toBigint = f.exponent * 2 ^ 35 + f.significand := by
  rw [compressFr, if_neg hzero] at h
  dsimp only at h
  split at h
  · cases h
  split at h
  · cases h
  next hsig =>
  obtain ⟨n, hn, hc⟩ := Exec.bind_eq_ok_iff.1 h
  obtain ⟨hnonneg, -⟩ := stripZeros_spec 77 (Int.natCast_nonneg fr.val) 0
  rw [show (fr.val : ℤ) = fr.toBigint from rfl] at hnonneg
  have hsig : (stripZeros 77 fr.toBigint 0).1 < 2 ^ 35 := not_le.1 hsig
  obtain ⟨hexp, heq⟩ := FluidexCommon.FloatLaws.eq_of_toEncodedInt _ n hnonneg hsig hn
  dsimp only at hexp heq
  -- The encoded float is a number of 40 bits, hence the field element of the same value.
  obtain ⟨k, rfl⟩ := Int.eq_ofNat_of_zero_le (show 0 ≤ n by omega)
  have hk : k < 2 ^ 40 := by omega
  have hval : c.val = k := by
    rw [← Except.ok.inj hc, Int.cast_natCast]
    exact Fr.val_natCast hk (by decide)
  have hbigint : c.toBigint = k := congrArg Nat.cast hval
  exact ⟨⟨_, _⟩, rfl, hnonneg, hsig, hexp, hval ▸ hk, hbigint ▸ hn, hbigint.trans heq⟩

theorem compressFr_spec {fr c : Fr} (h : compressFr fr = .ok c) :
    c.val < 2 ^ 40 ∧ decompressFr c = .ok fr := by
  by_cases hzero : fr.toBigint = 0
  · rw [compressFr, if_pos hzero] at h
    obtain rfl := Except.ok.inj h
    have hfr : fr = 0 := ZMod.val_injective _ (Int.natCast_eq_zero.1 hzero)
    exact ⟨by rw [ZMod.val_zero]; decide, hfr ▸ decompressFr_zero⟩
  · obtain ⟨f, hf, hnonneg, hsig, hexp, hlt, -, hc⟩ := compressFr_float h hzero
    obtain ⟨-, hvalue⟩ := stripZeros_spec 77 (Int.natCast_nonneg fr.val) 0
    rw [show (fr.val : ℤ) = fr.toBigint from rfl, ← hf] at hvalue
    refine ⟨hlt, ?_⟩
    rw [decompressFr, hc, FluidexCommon.FloatLaws.fromEncodedBigint_eq _ hnonneg hsig hexp,
      Exec.ok_bind, FluidexCommon.FloatLaws.toBigint_eq, hvalue, pow_zero, mul_one, Fr.toBigint,
      Int.cast_natCast, ZMod.natCast_zmod_val]
    rfl

omit [FluidexCommon.FloatLaws] in
/-- Whether an order is filled depends on the totals that were compressed. -/
theorem orderFilled_eq {filledBuy amountBuy filledSell amountSell totalBuy totalSell : Fr}
    (hbuy : decompressFr amountBuy = .ok totalBuy) (hsell : decompressFr amountSell = .ok totalSell) :
    orderFilled filledBuy amountBuy filledSell amountSell =
      .ok (decide (filledBuy = totalBuy ∨ filledSell = totalSell)) := by
  rw [orderFilled, hbuy, Exec.ok_bind]
  split
  · next h => rw [decide_eq_true (.inl h)]; rfl
  · next h => rw [hsell, Exec.ok_bind]; simp only [h, false_or]; rfl

end Compressing

/-! ## Fields -/

variable [FluidexCommon.Documented]

namespace FrField

variable {f : FrField}

/-- An element that is not too big for its width is converted. -/
theorem number?_of_lt (h : f.fr.val < 2 ^ 63 ∨ 64 ≤ f.width) : f.number? = some f.fr.val := by
  unfold number?
  split
  · next hw =>
    have hlt : f.fr.val < 2 ^ 63 := h.resolve_right (not_le.2 hw)
    rw [FluidexCommon.Documented.toI64_eq, if_pos hlt, Option.map_some, BitVec.toNat_ofInt]
    exact congrArg some (by omega)
  · rfl

theorem field_of_lt (h : f.fr.val < 2 ^ 63 ∨ 64 ≤ f.width) : f.field = ⟨f.fr.val, f.width⟩ := by
  rw [field, number?_of_lt h, Option.getD_some]

theorem fits_iff (h : f.fr.val < 2 ^ 63 ∨ 64 ≤ f.width) :
    f.Fits ↔ f.truncated = true ∨ f.fr.val < 2 ^ f.width := by
  rw [FrField.Fits]
  rw [field_of_lt h, number?_of_lt h, and_iff_right (by rfl)]
  rfl

/-- A field element below `2 ^ width` fits in `width` bits. -/
theorem fits_of_lt (h : f.fr.val < 2 ^ f.width) : f.Fits := by
  refine (fits_iff ?_).2 (.inr h)
  rcases lt_or_ge f.width 64 with hw | hw
  · exact .inl (h.trans_le (Nat.pow_le_pow_right (by decide) (Nat.le_of_lt_succ hw)))
  · exact .inr hw

/-- What is written is the value of the field element. -/
theorem field_eq (h : f.number?.isSome) : f.field = ⟨f.fr.val, f.width⟩ := by
  refine field_of_lt ?_
  by_contra hbig
  obtain ⟨hge, hw⟩ := not_or.1 hbig
  rw [number?, if_pos (not_le.1 hw), FluidexCommon.Documented.toI64_eq, if_neg hge] at h
  cases h

end FrField

end Floats

end Rollup
