import Rollup.Decoding
import Rollup.Settlement

/-!
# What can be compressed

The loop of `compress_fr` removes all the factors ten of an amount, of which a field element
has at most 76 (`stripZeros_ends`). So it yields the float with the largest exponent: what is
compressed is exact (`compressFr_exact`), but an amount that a float can represent is refused
if it has more than 31 factors ten, those of its significand included (`compressFr_ok_iff`).
-/

namespace Rollup

/-- Floats are encoded if their exponent fits in 5 bits, and decoded. -/
class FluidexCommon.FloatsEncoded [FluidexCommon] : Prop where
  toEncodedInt_eq (f : Float40) : 0 ≤ f.significand → f.significand < 2 ^ 35 → f.exponent ≤ 31 →
    FluidexCommon.toEncodedInt f = .ok (f.exponent * 2 ^ 35 + f.significand)
  toEncodedInt_error (f : Float40) : 31 < f.exponent →
    ∃ e, FluidexCommon.toEncodedInt f = .error e
  fromEncodedBigint_eq (f : Float40) : 0 ≤ f.significand → f.significand < 2 ^ 35 →
    f.exponent ≤ 31 →
      FluidexCommon.fromEncodedBigint (f.exponent * 2 ^ 35 + f.significand) = .ok f
  toBigint_eq (f : Float40) : FluidexCommon.toBigint f = f.significand * 10 ^ f.exponent

instance [FluidexCommon] [h : FluidexCommon.FloatsEncoded] : FluidexCommon.FloatLaws where
  eq_of_toEncodedInt f n h0 hsig hn := by
    rcases Nat.lt_or_ge 31 f.exponent with hexp | hexp
    · obtain ⟨e, he⟩ := h.toEncodedInt_error f hexp
      rw [he] at hn
      cases hn
    · rw [h.toEncodedInt_eq f h0 hsig hexp, Except.ok.injEq] at hn
      exact ⟨Nat.lt_succ_of_le hexp, hn.symm⟩
  fromEncodedBigint_eq f h0 hsig hexp := h.fromEncodedBigint_eq f h0 hsig (Nat.le_of_lt_succ hexp)
  toBigint_eq := h.toBigint_eq

attribute [local instance] FluidexCommon.sample in
/-- The instance the model is run with encodes floats so. -/
theorem FluidexCommon.sample_floatsEncoded : FluidexCommon.FloatsEncoded where
  toEncodedInt_eq _ _ hsig hexp := if_pos ⟨hsig, Nat.lt_succ_of_le hexp⟩
  toEncodedInt_error _ hexp := ⟨_, if_neg fun h => (Nat.le_of_lt_succ h.2).not_gt hexp⟩
  fromEncodedBigint_eq f h0 hsig hexp :=
    sample_documented.fromEncodedBigint_eq f h0 hsig (Nat.lt_succ_of_le hexp)
  toBigint_eq _ := rfl

/-! ## The loop -/

/-- The loop has ended after `fuel` rounds, since the number is below `10 ^ fuel`: there is no
    factor ten left. -/
theorem stripZeros_ends {fuel : ℕ} {n : ℤ} (hn : 0 < n) (hlt : n < 10 ^ fuel) (exponent : ℕ) :
    ¬10 ∣ (stripZeros fuel n exponent).1 ∧ (stripZeros fuel n exponent).2 < exponent + fuel ∧
      ∀ more, fuel ≤ more → stripZeros more n exponent = stripZeros fuel n exponent := by
  induction fuel generalizing n exponent with
  | zero =>
    rw [pow_zero] at hlt
    omega
  | succ fuel ih =>
    have hmore : ∀ more, fuel + 1 ≤ more → ∃ m, more = m + 1 ∧ fuel ≤ m :=
      fun more hle => ⟨more - 1, by omega, by omega⟩
    by_cases hten : n = n / 10 * 10
    · have hpos : 0 < n / 10 := by omega
      rw [pow_succ] at hlt
      obtain ⟨hdvd, hexp, hsame⟩ := ih hpos (by omega) (exponent + 1)
      rw [stripZeros, if_pos hten]
      refine ⟨hdvd, by omega, fun more hle => ?_⟩
      obtain ⟨m, rfl, hm⟩ := hmore more hle
      rw [stripZeros, if_pos hten, hsame m hm]
    · rw [stripZeros, if_neg hten]
      refine ⟨fun hdvd => hten (Int.ediv_mul_cancel hdvd).symm, by omega, fun more hle => ?_⟩
      obtain ⟨m, rfl, -⟩ := hmore more hle
      rw [stripZeros, if_neg hten]

/-- The number of factors ten of a number written as a float without any in its significand. -/
theorem pow_dvd_mul_pow_iff {m : ℤ} (hm : ¬10 ∣ m) {j k : ℕ} : 10 ^ j ∣ m * 10 ^ k ↔ j ≤ k := by
  constructor
  · intro hdvd
    by_contra hlt
    have hsucc : 10 * 10 ^ k ∣ m * 10 ^ k := by
      rw [← pow_succ']
      exact (pow_dvd_pow 10 (not_le.1 hlt)).trans hdvd
    exact hm ((mul_dvd_mul_iff_right (pow_ne_zero k (by decide))).1 hsucc)
  · exact fun hle => dvd_mul_of_dvd_right (pow_dvd_pow 10 hle) m

/-- The loop of `compress_fr` on a field element. -/
theorem stripZeros_fr {x : Fr} (hx : x ≠ 0) :
    ¬10 ∣ (stripZeros 77 x.toBigint 0).1 ∧ (stripZeros 77 x.toBigint 0).2 ≤ 76 ∧
      ∀ more, 77 ≤ more → stripZeros more x.toBigint 0 = stripZeros 77 x.toBigint 0 := by
  have hpos : 0 < x.toBigint := by
    rw [Fr.toBigint, Int.natCast_pos]
    exact Nat.pos_of_ne_zero fun h => hx ((ZMod.val_eq_zero x).1 h)
  have hmod : Fr.modulus < 10 ^ 77 := by decide
  have hlt : x.toBigint < 10 ^ 77 := by
    rw [Fr.toBigint]
    exact_mod_cast (ZMod.val_lt x).trans hmod
  obtain ⟨hdvd, hexp, hmore⟩ := stripZeros_ends hpos hlt 0
  exact ⟨hdvd, by omega, hmore⟩

section Compressed

variable [FluidexCommon]

/-! ## What is compressed is exact -/

/-- The loop ends, after at most 76 rounds; what is compressed has 40 bits and is the amount that
    is decompressed, hence that of no other one; and an order is filled if its fills are its
    totals before compression. -/
theorem compressFr_exact [FluidexCommon.FloatLaws] :
    (∀ x : Fr, x ≠ 0 → ¬10 ∣ (stripZeros 77 x.toBigint 0).1 ∧ (stripZeros 77 x.toBigint 0).2 ≤ 76 ∧
      ∀ more, 77 ≤ more → stripZeros more x.toBigint 0 = stripZeros 77 x.toBigint 0) ∧
    (∀ x y, compressFr x = .ok y → y.val < 2 ^ 40 ∧ decompressFr y = .ok x) ∧
    (∀ x x' y, compressFr x = .ok y → compressFr x' = .ok y → x = x') ∧
    ∀ order amounts, compressTotals order = .ok amounts →
      orderFilled order.filledBuy amounts.2 order.filledSell amounts.1 =
        .ok (decide (order.filledBuy = order.totalBuy ∨ order.filledSell = order.totalSell)) := by
  refine ⟨fun x hx => stripZeros_fr hx, fun x y h => compressFr_spec h, fun x x' y h h' => ?_, ?_⟩
  · have hdec := (compressFr_spec h).2
    rw [(compressFr_spec h').2] at hdec
    exact (Except.ok.inj hdec).symm
  · intro order amounts h
    obtain ⟨⟨-, hsell⟩, -, hbuy⟩ := compressTotals_spec h
    exact orderFilled_eq hbuy hsell

/-! ## What is compressed -/

/-- The amounts of the floats. -/
def Fr.Representable (x : Fr) : Prop :=
  ∃ s e : ℕ, s < 2 ^ 35 ∧ e ≤ 31 ∧ x = (s * 10 ^ e : ℕ)

omit [FluidexCommon] in
/-- A representable amount, as an integer, is smaller than the field. -/
theorem Fr.Representable.exists_val_eq {x : Fr} (hx : x.Representable) :
    ∃ s e : ℕ, s < 2 ^ 35 ∧ e ≤ 31 ∧ x.val = s * 10 ^ e := by
  obtain ⟨s, e, hs, he, rfl⟩ := hx
  refine ⟨s, e, hs, he, Fr.val_natCast (k := 138) ?_ (by decide)⟩
  calc s * 10 ^ e ≤ s * 10 ^ 31 := Nat.mul_le_mul_left s (Nat.pow_le_pow_right (by decide) he)
    _ < 2 ^ 35 * 10 ^ 31 := Nat.mul_lt_mul_of_pos_right hs (by decide)
    _ < 2 ^ 138 := by decide

/-- A representable amount is compressed if the exponent of the float that the loop ends with
    fits in 5 bits. -/
theorem exists_compressFr_iff [FluidexCommon.FloatsEncoded] {x : Fr} (hx : x.Representable) :
    (∃ y, compressFr x = .ok y) ↔ x = 0 ∨ ¬10 ^ 32 ∣ x.val := by
  rcases eq_or_ne x 0 with rfl | hzero
  · exact iff_of_true ⟨0, by rw [compressFr, if_pos (by rfl)]⟩ (.inl rfl)
  have hpos : x.val ≠ 0 := fun h => hzero ((ZMod.val_eq_zero x).1 h)
  have hbig : x.toBigint ≠ 0 := fun h => hpos (Int.natCast_eq_zero.1 h)
  rw [or_iff_right hzero, compressFr, if_neg hbig]
  obtain ⟨s, e, hs, he, hval⟩ := hx.exists_val_eq
  have hten := (stripZeros_fr hzero).1
  obtain ⟨hnonneg, hvalue⟩ :=
    stripZeros_spec 77 (show 0 ≤ x.toBigint from Int.natCast_nonneg x.val) 0
  generalize stripZeros 77 x.toBigint 0 = float at *
  obtain ⟨m, k⟩ := float
  dsimp only at hten hnonneg hvalue ⊢
  rw [pow_zero, mul_one, Fr.toBigint] at hvalue
  -- The loop removes the `e` factors ten, hence leaves at most `s`.
  have hle : e ≤ k := by
    rw [← pow_dvd_mul_pow_iff hten, hvalue, hval]
    exact_mod_cast Dvd.intro_left s rfl
  have hms : m ≤ s := by
    refine le_of_mul_le_mul_right ?_ (show (0 : ℤ) < 10 ^ k from pow_pos (by decide) k)
    rw [hvalue, hval]
    exact_mod_cast Nat.mul_le_mul_left s (Nat.pow_le_pow_right (by decide) hle)
  have hdvd : 10 ^ 32 ∣ x.val ↔ 32 ≤ k := by
    rw [← pow_dvd_mul_pow_iff hten, hvalue]
    norm_cast
  have hsig : m < 2 ^ 35 := by omega
  rw [if_neg (by omega), if_neg (by omega), hdvd, not_le]
  constructor
  · rintro ⟨y, hy⟩
    by_contra hlt
    obtain ⟨error, herror⟩ := FluidexCommon.FloatsEncoded.toEncodedInt_error ⟨m, k⟩ (not_lt.1 hlt)
    rw [herror] at hy
    cases hy
  · intro hlt
    rw [FluidexCommon.FloatsEncoded.toEncodedInt_eq ⟨m, k⟩ hnonneg hsig (Nat.le_of_lt_succ hlt)]
    exact ⟨_, rfl⟩

/-- Of the amounts that floats can represent, those are compressed that are not multiples of
    `10 ^ 32`; so the totals of an order are. -/
theorem compressFr_ok_iff [FluidexCommon.FloatsEncoded] :
    (∀ x : Fr, x.Representable → ((∃ y, compressFr x = .ok y) ↔ x = 0 ∨ ¬10 ^ 32 ∣ x.val)) ∧
      ∀ order : Order, order.totalSell.Representable → order.totalBuy.Representable →
        ((∃ amounts, compressTotals order = .ok amounts) ↔
          (order.totalSell = 0 ∨ ¬10 ^ 32 ∣ order.totalSell.val) ∧
            (order.totalBuy = 0 ∨ ¬10 ^ 32 ∣ order.totalBuy.val)) := by
  refine ⟨fun x => exists_compressFr_iff, fun order hsell hbuy => ?_⟩
  rw [← exists_compressFr_iff hsell, ← exists_compressFr_iff hbuy]
  constructor
  · rintro ⟨amounts, h⟩
    obtain ⟨hsell, hbuy⟩ := compressTotals_eq_ok_iff.1 h
    exact ⟨⟨_, hsell⟩, _, hbuy⟩
  · rintro ⟨⟨sell, hsell⟩, buy, hbuy⟩
    exact ⟨(sell, buy), compressTotals_eq_ok_iff.2 ⟨hsell, hbuy⟩⟩

end Compressed

attribute [local instance] FluidexCommon.sample in
/-- An amount of `1430`. -/
theorem compressFr_exact_1430 : ∃ y, compressFr 1430 = .ok y ∧ y.val < 2 ^ 40 ∧
    decompressFr y = .ok 1430 := by
  obtain ⟨y, hy⟩ := Exec.exists_eq_ok (compressFr 1430) (by decide +kernel)
  have hlaws := FluidexCommon.sample_floatsEncoded
  exact ⟨y, hy, compressFr_exact.2.1 1430 y hy⟩

/-- The maker sells many units, as many as a float can represent. -/
def manyForSix : FullSpotTradeTx :=
  { fiveForSix 1 with makerOrder := some { makerOrder with totalSell := 10 ^ 32 } }

attribute [local instance] FluidexCommon.sample in
/-- The amount `10 ^ 31`, written with the significand `10`. -/
theorem compressFr_ok_iff_ten : ∃ y, compressFr (10 ^ 31) = .ok y := by
  have hlaws := FluidexCommon.sample_floatsEncoded
  exact (compressFr_ok_iff.1 (10 ^ 31) ⟨10, 30, by decide, by decide, by decide⟩).2
    (.inr (by decide))

attribute [local instance] FluidexCommon.sample in
/-- The amount `10 ^ 32` is `10 * 10 ^ 31`, but it is not compressed: a trade stops. -/
theorem not_compressFr_ten :
    (10 ^ 32 : Fr).Representable ∧ (∀ y, compressFr (10 ^ 32) ≠ .ok y) ∧
      ∃ n, Exec.run Node.step (Node.new Levels.small 2 none 9) traders = .ok n ∧
        n.state.fullSpotTrade .id manyForSix none = .error .unwrap := by
  have hnone : (compressFr (10 ^ 32)).toOption = none := by decide +kernel
  refine ⟨⟨10, 31, by decide, le_rfl, by decide⟩, fun y hy => ?_, ?_⟩
  · rw [hy] at hnone
    cases hnone
  · obtain ⟨n, hn⟩ := Exec.exists_eq_ok (do
      let n ← Exec.run Node.step (Node.new Levels.small 2 none 9) traders
      assert ((n.state.fullSpotTrade .id manyForSix none).map (fun _ => ()) = .error .unwrap) "a panic"
      pure n) (by decide +kernel)
    simp only [Exec.bind_eq_ok_iff, Exec.assert_eq_ok_iff, Exec.pure_eq_ok_iff] at hn
    obtain ⟨n, hn, _, hpanic, rfl⟩ := hn
    exact ⟨n, hn, Exec.map_eq_error_iff.1 hpanic⟩

end Rollup
