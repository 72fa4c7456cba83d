import Rollup.Encode
import Rollup.Lib.Bits

/-!
# Contexts as bits

A context of the encoder is given by the bits it holds (`BitEncodeContext.ofBits`),
and its functions append bits to them, without overflow (`applyBit_ofBits`). The bytes
are read back as the bits they were made of, and the zeros that fill the last one
(`flatMap_byteBits_sealBuf_ofBits`).
-/

namespace Rollup

namespace BitEncodeContext

/-- Adding a bit, the highest ones of a byte first. -/
def push (c : BitEncodeContext) (b : Bool) : BitEncodeContext :=
  let encodingChar := if b then c.encodingChar + mask.getD c.applyingBit 0 else c.encodingChar
  if c.applyingBit + 1 = 8 then ⟨c.encodingBuf ++ [encodingChar], 0, 0⟩
  else ⟨c.encodingBuf, c.applyingBit + 1, encodingChar⟩

/-- The context holding some bits. -/
def ofBits (l : List Bool) : BitEncodeContext := l.foldl push new

/-- The bits are pushed one after the other. -/
theorem ofBits_append (l l' : List Bool) : ofBits (l ++ l') = l'.foldl push (ofBits l) :=
  List.foldl_append

theorem ofBits_concat (l : List Bool) (b : Bool) : ofBits (l ++ [b]) = (ofBits l).push b :=
  ofBits_append l [b]

/-- The bits are counted; less than a byte is pending. -/
theorem totalBits_ofBits (l : List Bool) :
    (ofBits l).applyingBit < 8 ∧ (ofBits l).totalBits = l.length := by
  induction l using List.reverseRecOn with
  | nil => exact ⟨by decide, rfl⟩
  | append_singleton l b ih =>
    obtain ⟨hlt, htotal⟩ := ih
    rw [ofBits_concat, push, List.length_append, ← htotal]
    split
    · next h8 =>
      refine ⟨Nat.zero_lt_succ 7, ?_⟩
      simp only [totalBits, List.length_append, List.length_singleton]
      omega
    · next h8 =>
      refine ⟨by change (ofBits l).applyingBit + 1 < 8; omega, ?_⟩
      simp only [totalBits, List.length_singleton]
      omega

/-- The bits of the last byte are those that do not fill one. -/
theorem applyingBit_ofBits (l : List Bool) : (ofBits l).applyingBit = l.length % 8 := by
  obtain ⟨hlt, htotal⟩ := totalBits_ofBits l
  rw [totalBits] at htotal
  omega

/-- A byte that is full is kept. -/
theorem nextByte_of {c : BitEncodeContext} (h : c.applyingBit = 8) :
    c.nextByte = .ok ⟨c.encodingBuf ++ [c.encodingChar], 0, 0⟩ := by
  rw [nextByte, assert, Exec.assert_of h]
  rfl

/-! ## The pending byte -/

theorem toNat_mask : ∀ i < 8, (mask.getD i 0).toNat = 2 ^ (7 - i) := by decide

/-- The next bit fits in a byte of which only the highest bits are set. -/
theorem add_mask_lt {char : UInt8} {i : ℕ} (hi : i < 8) (h : 2 ^ (8 - i) ∣ char.toNat) :
    char.toNat + (mask.getD i 0).toNat < 2 ^ 8 := by
  have hlt : char.toNat < 2 ^ 8 := char.toNat_lt
  have hdvd : 2 ^ (8 - i) ∣ 2 ^ 8 - char.toNat := Nat.dvd_sub (pow_dvd_pow 2 (Nat.sub_le 8 i)) h
  have hle : 2 ^ (8 - i) ≤ 2 ^ 8 - char.toNat := Nat.le_of_dvd (Nat.sub_pos_of_lt hlt) hdvd
  have hpow : 2 ^ (7 - i) < 2 ^ (8 - i) := Nat.pow_lt_pow_right (by decide) (by omega)
  rw [toNat_mask i hi]
  omega

/-- Only the highest bits of the pending byte are set, those that have been added. -/
theorem dvd_encodingChar_ofBits (l : List Bool) :
    2 ^ (8 - (ofBits l).applyingBit) ∣ (ofBits l).encodingChar.toNat := by
  induction l using List.reverseRecOn with
  | nil => exact dvd_zero _
  | append_singleton l b ih =>
    have hlt := (totalBits_ofBits l).1
    rw [ofBits_concat, push]
    split
    · exact dvd_zero _
    · have hpow : 2 ^ (8 - ((ofBits l).applyingBit + 1)) ∣ 2 ^ (8 - (ofBits l).applyingBit) :=
        pow_dvd_pow 2 (by omega)
      cases b with
      | false => exact hpow.trans ih
      | true =>
        have hbit : (mask.getD (ofBits l).applyingBit 0).toNat =
            2 ^ (8 - ((ofBits l).applyingBit + 1)) := by
          rw [toNat_mask _ hlt, Nat.sub_add_eq, Nat.sub_right_comm]
        have hsum := add_mask_lt hlt ih
        rw [if_pos rfl, UInt8.toNat_add, Nat.mod_eq_of_lt hsum, hbit]
        exact dvd_add (hpow.trans ih) dvd_rfl

/-- Adding a bit never overflows. -/
theorem applyBit_ofBits (l : List Bool) (isZero : Bool) :
    (ofBits l).applyBit isZero = .ok (ofBits (l ++ [!isZero])) := by
  have hlt := (totalBits_ofBits l).1
  have hmask : mask[(ofBits l).applyingBit]? = some (mask.getD (ofBits l).applyingBit 0) := by
    rw [List.getD_eq_getElem?_getD, List.getElem?_eq_getElem (show _ < mask.length from hlt),
      Option.getD_some]
  have hsum := add_mask_lt hlt (dvd_encodingChar_ofBits l)
  rw [ofBits_concat, applyBit, push]
  cases isZero with
  | true =>
    simp only [if_true, Bool.not_true, Bool.false_eq_true, if_false, pure_bind]
    split
    · next h8 => exact nextByte_of h8
    · rfl
  | false =>
    simp only [Bool.false_eq_true, if_false, hmask, unwrap, Exec.unwrap_some, Exec.ok_bind,
      Exec.assert_of hsum, Bool.not_false, if_true, pure_bind]
    split
    · next h8 => exact nextByte_of h8
    · rfl

/-- The lowest bits are written, and the rest of the number is returned. -/
theorem applyBits_ofBits (l : List Bool) (n bits : ℕ) :
    (ofBits l).applyBits n bits = .ok (n / 2 ^ bits, ofBits (l ++ Bits.ofNat bits n)) := by
  induction bits generalizing l n with
  | zero => rw [applyBits, pow_zero, Nat.div_one, Bits.ofNat, List.append_nil]; rfl
  | succ bits ih =>
    have hbit : (!decide (n % 2 = 0)) = decide (n % 2 = 1) := by
      rcases Nat.mod_two_eq_zero_or_one n with h | h <;> rw [h] <;> rfl
    rw [applyBits, applyBit_ofBits, Exec.ok_bind, ih, Nat.div_div_eq_div_mul, ← pow_succ', hbit,
      List.append_assoc]
    rfl

/-- The alignment only depends on the number of bits. -/
theorem checkAlign_ofBits (l : List Bool) (align : ℕ) :
    (ofBits l).checkAlign align =
      if l.length % align = 0 then .ok () else .error (align - l.length % align) := by
  rw [checkAlign, (totalBits_ofBits l).2]

/-- Nothing is pending between two bytes. -/
theorem ofBits_of_mod (l : List Bool) (h : l.length % 8 = 0) :
    ofBits l = ⟨(ofBits l).encodingBuf, 0, 0⟩ := by
  have hbit : (ofBits l).applyingBit = 0 := (applyingBit_ofBits l).trans h
  have hchar : (ofBits l).encodingChar = 0 := by
    have hdvd := dvd_encodingChar_ofBits l
    rw [hbit] at hdvd
    exact UInt8.toNat_inj.1 (Nat.eq_zero_of_dvd_of_lt hdvd (ofBits l).encodingChar.toNat_lt)
  exact congr_arg₂ (BitEncodeContext.mk (ofBits l).encodingBuf) hbit hchar

/-- Whole bytes of zeros. -/
theorem ofBits_zeros (l : List Bool) (h : l.length % 8 = 0) (k : ℕ) :
    ofBits (l ++ List.replicate (8 * k) false) =
      ⟨(ofBits l).encodingBuf ++ List.replicate k 0, (ofBits l).applyingBit,
        (ofBits l).encodingChar⟩ := by
  have hl := ofBits_of_mod l h
  generalize (ofBits l).encodingBuf = buf at hl
  rw [hl]
  induction k with
  | zero => rw [Nat.mul_zero, List.replicate_zero, List.append_nil, hl]; simp
  | succ k ih =>
    have hsucc : List.replicate (k + 1) (0 : UInt8) = List.replicate k 0 ++ [0] :=
      List.replicate_succ'
    rw [Nat.mul_succ, List.replicate_add, ← List.append_assoc, ofBits_append, ih, hsucc,
      ← List.append_assoc]
    rfl

/-- The bytes that are added at once are those that would be added bit by bit. -/
theorem padBits_ofBits (l : List Bool) {fuel padding : ℕ} (h : padding ≤ fuel) :
    (ofBits l).padBits fuel padding = .ok (ofBits (l ++ List.replicate padding false)) := by
  induction fuel generalizing l padding with
  | zero =>
    rw [Nat.le_zero.1 h, List.replicate_zero, List.append_nil]
    rfl
  | succ fuel ih =>
    cases padding with
    | zero =>
      rw [List.replicate_zero, List.append_nil]
      rfl
    | succ padding =>
      rw [padBits]
      rotate_left
      · exact Nat.succ_ne_zero padding
      split
      · next hfast =>
        -- The fast path: the context is between two bytes.
        have hmod : l.length % 8 = 0 := (applyingBit_ofBits l).symm.trans hfast.2
        have hsum : 8 * ((padding + 1) / 8) + (padding + 1 - (padding + 1) / 8 * 8) = padding + 1 := by
          omega
        have hzeros := ih (l ++ List.replicate (8 * ((padding + 1) / 8)) false)
          (show padding + 1 - (padding + 1) / 8 * 8 ≤ fuel by omega)
        rw [ofBits_zeros l hmod, List.append_assoc, ← List.replicate_add, hsum] at hzeros
        exact hzeros
      · rw [applyBit_ofBits, Exec.ok_bind, Nat.add_sub_cancel, ih _ (Nat.le_of_succ_le_succ h),
          List.append_assoc, List.replicate_succ]
        rfl

/-- The number of bits missing to a multiple of `alignAt`. -/
def missingBits (length alignAt : ℕ) : ℕ :=
  if length % alignAt = 0 then 0 else alignAt - length % alignAt

/-- No fewer bits reach a multiple of `alignAt`. -/
theorem isLeast_missingBits {alignAt : ℕ} (h : alignAt ≠ 0) (length : ℕ) :
    IsLeast {k | alignAt ∣ length + k} (missingBits length alignAt) := by
  have hlt := Nat.mod_lt length (Nat.pos_of_ne_zero h)
  have hdvd : ∀ k, alignAt ∣ length + k ↔ alignAt ∣ length % alignAt + k := by
    intro k
    rw [Nat.dvd_iff_mod_eq_zero, Nat.dvd_iff_mod_eq_zero, Nat.mod_add_mod]
  rw [missingBits]
  split
  · next hmod => exact ⟨Nat.dvd_of_mod_eq_zero hmod, fun _ _ => Nat.zero_le _⟩
  · next hmod =>
    refine ⟨(hdvd _).2 ?_, fun k hk => ?_⟩
    · rw [Nat.add_sub_cancel' hlt.le]
    · have hle := Nat.le_of_dvd (Nat.add_pos_left (Nat.pos_of_ne_zero hmod) k) ((hdvd k).1 hk)
      omega

/-- The loop of the padding writes the missing bits, whole bytes at once or not. -/
theorem padding_ofBits (l : List Bool) {alignAt : ℕ} (h : alignAt ≠ 0) :
    (ofBits l).padding alignAt =
      .ok (ofBits (l ++ List.replicate (missingBits l.length alignAt) false)) := by
  rw [padding, Exec.assert_of h, Exec.ok_bind, (totalBits_ofBits l).2, missingBits]
  split
  · rw [List.replicate_zero, List.append_nil]
    rfl
  · exact padBits_ofBits l le_rfl

/-! ## Bytes -/

/-- The context with more bytes before. -/
def prepend (buf : List UInt8) (c : BitEncodeContext) : BitEncodeContext :=
  { c with encodingBuf := buf ++ c.encodingBuf }

/-- What was written before plays no part in what is written next. -/
theorem push_prepend (buf : List UInt8) (c : BitEncodeContext) (b : Bool) :
    (c.prepend buf).push b = (c.push b).prepend buf := by
  by_cases h8 : c.applyingBit + 1 = 8
  · simp only [push, prepend, if_pos h8, List.append_assoc]
  · simp only [push, prepend, h8, if_false]

theorem sealBuf_prepend (buf : List UInt8) (c : BitEncodeContext) :
    (c.prepend buf).sealBuf = buf ++ c.sealBuf := by
  by_cases h0 : c.applyingBit = 0
  · simp only [sealBuf, prepend, h0, ne_eq, not_true_eq_false, if_false]
  · simp only [sealBuf, prepend, h0, ne_eq, not_false_eq_true, if_true, List.append_assoc]

theorem foldl_push_prepend (buf : List UInt8) (c : BitEncodeContext) (l : List Bool) :
    l.foldl push (c.prepend buf) = (l.foldl push c).prepend buf := by
  induction l generalizing c with
  | nil => rfl
  | cons b l ih => rw [List.foldl_cons, push_prepend, ih, List.foldl_cons]

/-- The bytes of bits that follow whole bytes. -/
theorem sealBuf_append {l : List Bool} (h : l.length % 8 = 0) (l' : List Bool) :
    (ofBits (l ++ l')).sealBuf = (ofBits l).sealBuf ++ (ofBits l').sealBuf := by
  have hl : ofBits l = new.prepend (ofBits l).encodingBuf :=
    (ofBits_of_mod l h).trans (by rw [prepend, new, List.append_nil])
  have hseal : (ofBits l).sealBuf = (ofBits l).encodingBuf := by
    rw [sealBuf, applyingBit_ofBits, h, if_neg (not_not.2 rfl)]
  rw [hseal, ofBits_append, hl, foldl_push_prepend, sealBuf_prepend, prepend, new, List.append_nil]
  rfl

/-- The bits of a byte, the highest one first. -/
def byteBits (byte : UInt8) : List Bool :=
  (List.range 8).map fun i => byte.toNat.testBit (7 - i)

/-- Eight bits are one byte. -/
theorem byteBits_ofBits (b₀ b₁ b₂ b₃ b₄ b₅ b₆ b₇ : Bool) :
    (ofBits [b₀, b₁, b₂, b₃, b₄, b₅, b₆, b₇]).sealBuf.flatMap byteBits =
      [b₀, b₁, b₂, b₃, b₄, b₅, b₆, b₇] := by
  revert b₀ b₁ b₂ b₃ b₄ b₅ b₆ b₇
  decide

/-- Whole bytes are read back as the bits they were made of. -/
theorem flatMap_byteBits_sealBuf {l : List Bool} (h : l.length % 8 = 0) :
    (ofBits l).sealBuf.flatMap byteBits = l := by
  obtain ⟨n, hn⟩ := Nat.dvd_of_mod_eq_zero h
  induction n generalizing l with
  | zero =>
    obtain rfl := List.length_eq_zero_iff.1 hn
    rfl
  | succ n ih =>
    match l, hn with
    | b₀ :: b₁ :: b₂ :: b₃ :: b₄ :: b₅ :: b₆ :: b₇ :: l, hn =>
      simp only [List.length_cons] at hn
      have h8 : [b₀, b₁, b₂, b₃, b₄, b₅, b₆, b₇].length % 8 = 0 := Nat.mod_self 8
      change (ofBits ([b₀, b₁, b₂, b₃, b₄, b₅, b₆, b₇] ++ l)).sealBuf.flatMap byteBits = _
      rw [sealBuf_append h8, List.flatMap_append, byteBits_ofBits, ih (by omega) (by omega)]
      rfl

theorem length_byteBits (byte : UInt8) : (byteBits byte).length = 8 := rfl

/-- A byte is known by its bits. -/
theorem byteBits_injective : Function.Injective byteBits := by
  intro byte byte' h
  refine UInt8.toNat_inj.1 (Nat.eq_of_testBit_eq fun i => ?_)
  rcases Nat.lt_or_ge i 8 with hi | hi
  · have hbit : 7 - (7 - i) = i := by omega
    have hget := congrArg (·[7 - i]?) h
    simpa [byteBits, show 7 - i < 8 by omega, hbit] using hget
  · have hpow : 2 ^ 8 ≤ 2 ^ i := Nat.pow_le_pow_right two_pos hi
    rw [Nat.testBit_lt_two_pow (byte.toNat_lt.trans_le hpow),
      Nat.testBit_lt_two_pow (byte'.toNat_lt.trans_le hpow)]

/-- A zero that follows other bits of its byte changes nothing. -/
theorem sealBuf_concat_false {l : List Bool} (h : l.length % 8 ≠ 0) :
    (ofBits (l ++ [false])).sealBuf = (ofBits l).sealBuf := by
  have hbit : (ofBits l).applyingBit ≠ 0 := (applyingBit_ofBits l).trans_ne h
  rw [ofBits_concat, push]
  split
  · rw [sealBuf, sealBuf, if_neg (not_not.2 rfl), if_pos hbit]
    rfl
  · rw [sealBuf, sealBuf, if_pos (Nat.succ_ne_zero _), if_pos hbit]
    rfl

/-- A byte that has been started is filled with zeros. -/
theorem sealBuf_replicate (l : List Bool) {k : ℕ} (hk : l.length % 8 + k ≤ 8)
    (h0 : l.length % 8 = 0 → k = 0) :
    (ofBits (l ++ List.replicate k false)).sealBuf = (ofBits l).sealBuf := by
  induction k with
  | zero => rw [List.replicate_zero, List.append_nil]
  | succ k ih =>
    have hmod : l.length % 8 ≠ 0 := fun h => absurd (h0 h) (Nat.succ_ne_zero k)
    have hpending : (l ++ List.replicate k false).length % 8 ≠ 0 := by
      rw [List.length_append, List.length_replicate]
      omega
    rw [List.replicate_succ', ← List.append_assoc, sealBuf_concat_false hpending]
    exact ih (by omega) fun h => absurd h hmod

/-- The bits that are read back are those that were added, then the zeros of the last byte. -/
theorem flatMap_byteBits_sealBuf_ofBits (l : List Bool) : (ofBits l).sealBuf.flatMap byteBits =
    l ++ List.replicate (missingBits l.length 8) false := by
  have hle : l.length % 8 + missingBits l.length 8 ≤ 8 ∧
      (l.length % 8 = 0 → missingBits l.length 8 = 0) := by
    rw [missingBits]
    split <;> omega
  have hmod : (l ++ List.replicate (missingBits l.length 8) false).length % 8 = 0 := by
    rw [List.length_append, List.length_replicate]
    exact Nat.mod_eq_zero_of_dvd (isLeast_missingBits (by decide) l.length).1
  rw [← sealBuf_replicate l hle.1 hle.2, flatMap_byteBits_sealBuf hmod]

/-- Whole bytes are sealed without another one. -/
theorem length_sealBuf {l : List Bool} (h : l.length % 8 = 0) :
    (ofBits l).sealBuf.length = l.length / 8 := by
  have htotal := (totalBits_ofBits l).2
  rw [totalBits, applyingBit_ofBits, h] at htotal
  rw [sealBuf, applyingBit_ofBits, h, if_neg (not_not.2 rfl)]
  omega

end BitEncodeContext

end Rollup
